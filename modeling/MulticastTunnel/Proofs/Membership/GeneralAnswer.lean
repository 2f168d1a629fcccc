import Mathlib.Data.List.Nodup
import Mathlib.Data.List.Perm.Subperm
import MulticastTunnel.Proofs.Membership.Outlets

/-!
# Answers to general queries

The answer to a general query is one report with a record for every filter that is
held. It is sent if it fits a datagram. There is no limit on what a reporter holds, and
records are not spread over several reports, so a reporter that holds too much sends no
answer at all.
-/

namespace MulticastTunnel.Membership

open Ordered

variable {ω : Type}

namespace Reporter

variable {r : Reporter} {o : Outlet ω} {w : ω} {records : List GroupRecord}

/-! ## Sending -/

/-- Records of the family are sent in one report, unless there are none or it does not
fit. Only a report that is lost because the relay is unreachable counts as sent. -/
theorem sendRecords_cases (hr : ∀ record ∈ records, record.OfFamily r.family)
    (hlocal : (o.localAddress w).family = r.family) :
    (records = [] ∧ r.sendRecords o records w = (.ok (), r, w)) ∨
    (¬ (⟨r.family, records⟩ : Report).Fits ∧
      r.sendRecords o records w = (.error (.codec (.packet .tooLarge)), r, w)) ∨
    (records ≠ [] ∧ (⟨r.family, records⟩ : Report).Fits ∧ ∃ packet,
      packet.family = r.family ∧ Report.ofPacket packet = .ok ⟨r.family, records⟩ ∧
      (r.sendRecords o records w).2.2 = (o.send packet w).2 ∧
      ((r.sendRecords o records w).1 = .ok () ↔
        ∀ e, (o.send packet w).1 = .error e → e = .unreachable)) := by
  have hgroups : ∀ record ∈ records, record.group.family = r.family :=
    fun record hm => (hr record hm).group
  unfold sendRecords
  split
  · next hempty => exact .inl ⟨by simpa using hempty, rfl⟩
  next hne =>
  by_cases hfits : (⟨r.family, records⟩ : Report).Fits
  · obtain ⟨packet, hp, hfamily⟩ := Report.toPacket_of_fits hgroups hlocal hfits
    refine .inr (.inr ⟨by simpa using hne, hfits, packet, hfamily,
      Report.ofPacket_of_toPacket hr hp, ?_⟩)
    simp only [hp]
    obtain ⟨answer, v⟩ := o.send packet w
    cases answer with
    | ok outcome => cases outcome <;> simp
    | error e => cases e <;> simp
  · rw [Report.toPacket_of_not_fits hgroups hlocal hfits]
    exact .inr (.inl ⟨hfits, rfl⟩)

/-! ## What is held -/

/-- The records tell the filter of every group, in ascending order and each once. -/
structure TellsAll (r : Reporter) (records : List GroupRecord) : Prop where
  ascending : Ascending (fun record : GroupRecord => rank record.group) records
  mem_iff : ∀ record, record ∈ records ↔
    ∃ group f, r.filter? group = some f ∧ record = f.currentState

theorem group_of_filter? {group : Address} {f : Filter} (h : r.filter? group = some f) :
    f.group = group := by
  rw [filter?_eq_demand] at h
  exact Demand.group_of_filter? h

theorem mem_filters {f : Filter} :
    f ∈ r.filters ↔ ∃ group, r.filter? group = some f := by
  simp only [filters, List.mem_filterMap, filter?, Option.bind_eq_some_iff,
    OrderedMap.get?_eq_some_iff, Prod.exists]

theorem tellsAll_generalRecords (r : Reporter) : r.TellsAll r.generalRecords := by
  constructor
  · unfold Ascending generalRecords filters
    rw [List.pairwise_map, List.pairwise_filterMap]
    refine r.demands.ascending.imp ?_
    intro e e' hlt f hf f' hf'
    show rank f.group < rank f'.group
    rw [Demand.group_of_filter? hf, Demand.group_of_filter? hf']
    exact hlt
  · intro record
    unfold generalRecords
    rw [List.mem_map]
    constructor
    · rintro ⟨f, hf, rfl⟩
      obtain ⟨group, hf⟩ := mem_filters.mp hf
      exact ⟨group, f, hf, rfl⟩
    · rintro ⟨group, f, hf, rfl⟩
      exact ⟨f, mem_filters.mpr ⟨group, hf⟩, rfl⟩

/-! ## The answer -/

/-- A general query that is answered at once is answered with all that is held. -/
theorem onQuery_general (hopen : r.closed = false) (htiming : r.settings.timing = .immediate)
    {q : Query} (hgroup : q.group = none) (o : Outlet ω) (now chance : Nat) (w : ω) :
    ∃ r', SameChanges r r' ∧
      r.onQuery o now chance q w = r'.sendRecords o r.generalRecords w := by
  refine ⟨{ r with
    robustness := if q.robustness = 0 then r.robustness else q.robustness
    queryInterval := if q.queryInterval = 0 then r.queryInterval else q.queryInterval },
    ⟨⟨rfl, rfl, rfl, rfl⟩, rfl⟩, ?_⟩
  unfold onQuery
  rw [if_neg (by simp [hopen])]
  simp only [htiming, hgroup]
  rfl

/-- The query is answered: it ends well, and the reports sent tell all that is held and
nothing else. -/
def AnswersAll (o : Outlet ω) (now chance : Nat) (q : Query) (r : Reporter) (w : ω × Log) : Prop :=
  let answer := r.onQuery o.logged now chance q w
  answer.1 = .ok () ∧ ∃ reports : List Packet,
    answer.2.2.2 = reports.map (fun p => (p, .ok .sent)) ++ w.2 ∧
    r.TellsAll (reports.flatMap recordsOf)

/-- The outlet sends every report, from an address of the family. -/
structure Willing (o : Outlet ω) (family : Family) : Prop where
  localAddress : ∀ w, (o.localAddress w).family = family
  send : ∀ packet w, (o.send packet w).1 = .ok .sent

variable {q : Query}

/-- Through a willing outlet the answer is sent if it fits, and else it is refused. -/
theorem onQuery_cases_of_willing (hk : r.Kindred) (ho : Willing o r.family)
    (hopen : r.closed = false) (htiming : r.settings.timing = .immediate)
    (hgroup : q.group = none) (now chance : Nat) (log : ω × Log) :
    ((⟨r.family, r.generalRecords⟩ : Report).Fits ∧ AnswersAll o now chance q r log) ∨
    (¬ (⟨r.family, r.generalRecords⟩ : Report).Fits ∧
      (r.onQuery o.logged now chance q log).1 = .error (.codec (.packet .tooLarge)) ∧
      (r.onQuery o.logged now chance q log).2.2 = log) := by
  obtain ⟨r', hsame, heq⟩ := onQuery_general hopen htiming hgroup o.logged now chance log
  have hfamily : r'.family = r.family := hsame.family
  have hcases := sendRecords_cases (o := o.logged) (w := log) (hfamily.symm ▸ hk.generalRecords)
    (hfamily.symm ▸ ho.localAddress log.1)
  have hall := r.tellsAll_generalRecords
  unfold AnswersAll
  rw [heq, hfamily] at *
  rcases hcases with ⟨hnone, hquiet⟩ | ⟨hlarge, herr⟩ | ⟨-, hfits, packet, -, hread, hlog, hok⟩
  · rw [hquiet]
    refine .inl ⟨?_, rfl, [], rfl, ?_⟩
    · rw [hnone]
      exact Report.fits_nil _
    · rwa [hnone] at hall
  · rw [herr]
    exact .inr ⟨hlarge, rfl, rfl⟩
  · refine .inl ⟨hfits, hok.mpr ?_, [packet], ?_, ?_⟩
    · intro e he
      cases (ho.send packet log.1).symm.trans he
    · rw [hlog]
      show (packet, (o.send packet log.1).1) :: log.2 = _
      rw [ho.send]
      rfl
    · have hrecords : recordsOf packet = r.generalRecords := by
        unfold recordsOf
        rw [hread]
      rwa [List.flatMap_singleton, hrecords]

namespace Run

/-- **General queries are answered with what is held, if it fits**: the answer is a single
report through a willing outlet, so a query is answered exactly while a report of all that
is held fits a datagram. One that does not fit is refused, and nothing is sent. -/
theorem general_query_answered (run : Run ω) (himmediate : run.settings.timing = .immediate)
    {o : Outlet ω} (ho : Willing o run.family) {q : Query} (hgroup : q.group = none)
    (n now chance : Nat) :
    let r := (run.state n).1
    let answer := r.onQuery o.logged now chance q (run.state n).2
    (AnswersAll o now chance q r (run.state n).2 ↔
      (⟨run.family, r.generalRecords⟩ : Report).Fits) ∧
    (¬ (⟨run.family, r.generalRecords⟩ : Report).Fits →
      answer.1 = .error (.codec (.packet .tooLarge)) ∧ answer.2.2 = (run.state n).2) := by
  intro r answer
  obtain ⟨hopen, hfamily, hsettings⟩ := run.setup_eq n
  rw [← hfamily] at ho ⊢
  rcases onQuery_cases_of_willing (run.kindred n) ho hopen (by rw [hsettings, himmediate]) hgroup
    now chance (run.state n).2 with ⟨hfits, hall⟩ | ⟨hlarge, herr, hlog⟩
  · exact ⟨iff_of_true hall hfits, fun hlarge => absurd hfits hlarge⟩
  · refine ⟨iff_of_false ?_ hlarge, fun _ => ⟨herr, hlog⟩⟩
    rintro ⟨hok, -⟩
    cases herr.symm.trans hok

/-! ## More than fits -/

/-- The group ff3e::8000:0 and those that follow it. -/
def crowdGroup (n : Nat) : Address :=
  .v6 #v[0xff, 0x3e, 0, 0, 0, 0, 0, 0, 0, 0, 0, 0, 0x80, 0, UInt8.ofNat (n / 256), UInt8.ofNat n]

theorem crowdGroup_inj (m n : Nat) (hm : m < 65536) (hn : n < 65536)
    (h : crowdGroup m = crowdGroup n) : m = n := by
  have hoctets : UInt8.ofNat (m / 256) = UInt8.ofNat (n / 256) ∧ UInt8.ofNat m = UInt8.ofNat n := by
    simpa [crowdGroup] using h
  rw [← Bytes.toNat_ofWord16 hm, ← Bytes.toNat_ofWord16 hn, hoctets.1, hoctets.2]

/-- Addresses that end in a number of their own are distinct. -/
theorem nodup_numbered {address : Nat → Address} {n : Nat}
    (hinj : ∀ k l, k < 65536 → l < 65536 → address k = address l → k = l) (hn : n ≤ 65536) :
    ((List.range n).map address).Nodup := by
  refine List.Nodup.map_on ?_ List.nodup_range
  intro k hk l hl heq
  rw [List.mem_range] at hk hl
  exact hinj k l (by omega) (by omega) heq

/-- The source 2001:db8::1. -/
def crowdSource : Address :=
  .read .ipv6 [0x20, 0x01, 0x0d, 0xb8, 0, 0, 0, 0, 0, 0, 0, 0, 0, 0, 0, 1]

/-- One group after the other is joined for one source, and every report is sent. -/
def crowd : Run Unit where
  family := .ipv6
  settings := { timing := .immediate }
  world := ()
  outlet _ :=
    { localAddress := fun _ => .unspecified .ipv6
      send := fun _ w => (.ok .sent, w)
      serial := fun w => (0, w) }
  act n := (0, .join (crowdGroup n) (some crowdSource))

theorem crowd_willing (n : Nat) : Willing (crowd.outlet n) .ipv6 where
  localAddress _ := rfl
  send _ _ := rfl

theorem crowd_sent (n : Nat) : ∀ report ∈ (crowd.state n).2.2, report.2 = .ok .sent := by
  induction n with
  | zero =>
    intro report hm
    cases hm
  | succ n ih =>
    have hkeeps : (crowd.outlet n).logged.Keeps fun w : Unit × Log =>
        ∀ report ∈ w.2, report.2 = .ok .sent := by
      constructor
      · intro packet w hw
        exact List.forall_mem_cons.mpr ⟨rfl, hw⟩
      · intro w hw
        exact hw
    exact hkeeps.perform _ _ _ ih

/-- Every group that was joined is held. -/
theorem crowd_held {k n : Nat} (h : k < n) :
    Held (crowdGroup k) (some crowdSource) (crowd.history n) := by
  induction n with
  | zero => cases h
  | succ n ih =>
    have hcall : (crowd.state n).1.call? (crowd.act n).2 =
        some (.join (crowdGroup n) (some crowdSource)) := by
      have hfamily := (crowd.setup_eq n).2.1
      show ite _ _ _ = _
      rw [if_pos]
      simp only [validate, hfamily]
      rfl
    rw [history, hcall]
    rcases Nat.lt_succ_iff_lt_or_eq.mp h with hlt | rfl
    · exact held_cons.mpr (.inr ⟨ih hlt, by simp [Call.Ends]⟩)
    · exact held_cons.mpr (.inl rfl)

theorem crowd_length {n : Nat} (hn : n ≤ 65536) :
    n ≤ (crowd.state n).1.generalRecords.length := by
  have hrecalls := crowd.recalls n (crowd_sent n)
  have hall := (crowd.state n).1.tellsAll_generalRecords
  have hnodup := nodup_numbered crowdGroup_inj hn
  have hsub : (List.range n).map crowdGroup ⊆
      (crowd.state n).1.generalRecords.map (·.group) := by
    intro group hm
    obtain ⟨k, hk, rfl⟩ := List.mem_map.mp hm
    obtain ⟨f, hf, -⟩ := (hrecalls.passes_iff _ crowdSource).mpr
      (.inl (crowd_held (List.mem_range.mp hk)))
    rw [List.mem_map]
    exact ⟨f.currentState, (hall.mem_iff _).mpr ⟨_, f, hf, rfl⟩, group_of_filter? hf⟩
  simpa using (hnodup.subperm hsub).length_le

/-- From 3276 groups on there is no room for the answer. -/
theorem crowd_too_large {n : Nat} (hlow : 3276 ≤ n) (hhigh : n ≤ 65536) :
    ¬ (⟨(crowd.state n).1.family, (crowd.state n).1.generalRecords⟩ : Report).Fits := by
  intro hfits
  have hle := hfits.length_records_le fun record hm =>
    ((crowd.kindred n).generalRecords record hm).group
  have hlength := crowd_length hhigh
  rw [(crowd.setup_eq n).2.1] at hle
  simp only [crowd, overhead, Family.addressLength, maxDatagramLength] at hle hlength
  omega

/-- The answer for two groups is sent. -/
theorem crowd_answered :
    (⟨.ipv6, (crowd.state 2).1.generalRecords⟩ : Report).Fits ∧
      AnswersAll (crowd.outlet 2) 0 0 (.general .ipv6 1000) (crowd.state 2).1
        (crowd.state 2).2 := by
  have hfits : (⟨.ipv6, (crowd.state 2).1.generalRecords⟩ : Report).Fits := by decide +kernel
  exact ⟨hfits, (general_query_answered crowd rfl (crowd_willing 2) rfl 2 0 0).1.mpr hfits⟩

/-- The answer for 3276 groups is refused, although every outlet sends all it is handed. -/
theorem not_answered_of_crowd :
    ¬ ∀ (run : Run Unit) (o : Outlet Unit) (q : Query) (n : Nat),
      run.settings.timing = .immediate → (∀ k, Willing (run.outlet k) run.family) →
      Willing o run.family → q.group = none →
      AnswersAll o 0 0 q (run.state n).1 (run.state n).2 := by
  intro h
  generalize hn : 3276 = n
  obtain ⟨hok, -⟩ := h crowd (crowd.outlet n) (.general .ipv6 1000) n rfl crowd_willing
    (crowd_willing n) rfl
  obtain ⟨hopen, hfamily, hsettings⟩ := crowd.setup_eq n
  have hwilling : Willing (crowd.outlet n) (crowd.state n).1.family := by
    rw [hfamily]
    exact crowd_willing n
  rcases onQuery_cases_of_willing (crowd.kindred n) hwilling hopen (by rw [hsettings]; rfl)
    (q := .general .ipv6 1000) rfl 0 0 (crowd.state n).2 with ⟨hfits, -⟩ | ⟨-, herr, -⟩
  · exact crowd_too_large (by omega) (by omega) hfits
  · cases herr.symm.trans hok

end Run

end Reporter

end MulticastTunnel.Membership
