import MulticastTunnel.Proofs.Membership.Deferral

/-!
# What outlets keep

A reporter hands reports to its outlet and takes timers from it, and does nothing else
with the state of the outlet. So what both of these keep is kept by every operation,
and whatever the outlet answers, the groups and sources of the reporter stay of its
family.
-/

namespace MulticastTunnel.Membership

open Ordered

variable {ω : Type}

/-- The outlet keeps `P`, whatever it answers. -/
structure Outlet.Keeps (o : Outlet ω) (P : ω → Prop) : Prop where
  send : ∀ packet w, P w → P (o.send packet w).2
  serial : ∀ w, P w → P (o.serial w).2

/-! ## The state of the outlet -/

namespace Outlet.Keeps

variable {o : Outlet ω} {P : ω → Prop} {w v : ω}

theorem idle (h : o.Keeps P) (hv : Reporter.Idle o w v) (hw : P w) : P v := by
  rcases hv with rfl | ⟨deadline, rfl⟩
  · exact hw
  · exact h.serial w hw

theorem sendRecords (h : o.Keeps P) (records : List GroupRecord) (r : Reporter) (hw : P w) :
    P (r.sendRecords o records w).2.2 := by
  unfold Reporter.sendRecords
  split
  · exact hw
  split
  · exact hw
  next packet _ =>
  have hsent := h.send packet w hw
  split <;> next heq => rwa [heq] at hsent

theorem reportChange (h : o.Keeps P) (now : Nat) (group : Address) (old new : Option Filter)
    (r : Reporter) (hw : P w) : P (r.reportChange o now group old new w).2.2 := by
  rcases Reporter.reportChange_eq o now group old new r w with
    ⟨-, heq⟩ | ⟨change, p, v, -, heq, -, hidle⟩
  · rw [heq]
    exact hw
  · rw [heq]
    exact h.sendRecords _ _ (h.idle hidle hw)

theorem join (h : o.Keeps P) (now : Nat) (group : Address) (source : Option Address)
    (r : Reporter) (hw : P w) : P (r.join o now group source w).2.2 := by
  rcases Reporter.join_eq o now group source r w with ⟨e, -, -, heq⟩ |
    ⟨demand, -, -, -, report, rfl, ⟨e, -, heq⟩ | ⟨-, heq⟩⟩
  · rw [heq]
    exact hw
  · rw [heq]
    exact h.reportChange now group _ _ _ hw
  · rw [heq]
    exact h.reportChange now group _ _ _ hw

theorem leave (h : o.Keeps P) (now : Nat) (group : Address) (source : Option Address)
    (r : Reporter) (hw : P w) : P (r.leave o now group source w).2.2 := by
  rcases Reporter.leave_eq o now group source r w with ⟨heq, -, -⟩ | ⟨held, left, -, -, -, -, heq⟩
  · rw [heq]
    exact hw
  · rw [heq]
    exact h.reportChange now group _ _ _ hw

theorem dropAll (h : o.Keeps P) (now : Nat) (groups : List Address) (r : Reporter) (hw : P w) :
    P (r.dropAll o now groups w).2.2 := by
  induction groups generalizing r w with
  | nil => exact hw
  | cons group groups ih => exact ih _ (h.reportChange now group _ _ _ hw)

theorem answered (h : o.Keeps P) {r : Reporter} {s : Reporter × ω}
    (ha : Reporter.Answered o r w s) (hw : P w) : P s.2 := by
  rcases ha with ⟨-, hidle⟩ | ⟨r', records, -, -, rfl⟩
  · exact h.idle hidle hw
  · exact h.sendRecords records r' hw

theorem fire (h : o.Keeps P) (now : Nat) (alarm : Reporter.Alarm) (r : Reporter) (hw : P w) :
    P (r.fire o now alarm w).2 := by
  rcases Reporter.fire_cases o now alarm r w with ⟨group, -, heq⟩ | ha
  · rw [heq]
    rcases Reporter.retransmit_cases o now group r w with heq | ⟨pending, p, v, -, -, hidle, heq⟩
    · rw [heq]
      exact hw
    · rw [heq]
      exact h.sendRecords _ _ (h.idle hidle hw)
  · exact h.answered ha hw

theorem onQuery (h : o.Keeps P) (now chance : Nat) (q : Query) (r : Reporter) (hw : P w) :
    P (r.onQuery o now chance q w).2.2 :=
  h.answered (Reporter.onQuery_cases o now chance q r w) hw

theorem perform (h : o.Keeps P) (now : Nat) (act : Reporter.Act) (r : Reporter) (hw : P w) :
    P (r.perform o now act w).2.2 := by
  cases act with
  | join group source => exact h.join now group source r hw
  | leave group source => exact h.leave now group source r hw
  | leaveAll => exact h.dropAll now r.demands.keys r hw
  | query chance q => exact h.onQuery now chance q r hw
  | alarm alarm => exact h.fire now alarm r hw

end Outlet.Keeps

/-! ## The family of the reporter -/

namespace Reporter

variable {r : Reporter} {group : Address} {source : Option Address} {d : Option Demand}
  {new : Option Filter}

theorem Kindred.sendRecords (h : r.Kindred) (o : Outlet ω) (records : List GroupRecord) (w : ω) :
    (r.sendRecords o records w).2.1.Kindred := by
  obtain ⟨n, hr, -⟩ := sendRecords_spec o records r w
  rw [hr]
  exact h.of_eq rfl rfl rfl

/-- Another demand for a group, and the change that it leaves to be reported. -/
theorem Kindred.reportChange (h : r.Kindred) (hg : group.family = r.family)
    (hd : ∀ d', d = some d' → d'.Kindred r.family) (hnew : d.bind (·.filter? group) = new)
    (o : Outlet ω) (now : Nat) (w : ω) :
    ((r.setDemand group d).reportChange o now group (r.filter? group) new w).2.1.Kindred := by
  have hset : (r.setDemand group d).Kindred := h.setDemand hg hd
  rcases reportChange_eq o now group (r.filter? group) new (r.setDemand group d) w with
    ⟨-, heq⟩ | ⟨change, p, v, hb, heq, hp, -⟩
  · rw [heq]
    exact hset
  · have hparts := hset.parts group
    rw [filter?_setDemand, hnew] at hparts
    have hnoted : ((r.setDemand group d).noted group change new).Kindred r.family :=
      hset.noted (StateChange.kindred_between? (h.parts group) hparts hb) hparts
    rw [heq]
    exact (hset.setChange hg fun q hq => (hp q hq).symm ▸ hnoted).sendRecords o _ v

theorem Kindred.join (h : r.Kindred) (o : Outlet ω) (now : Nat) (group : Address)
    (source : Option Address) (w : ω) : (r.join o now group source w).2.1.Kindred := by
  rcases join_eq o now group source r w with ⟨e, -, -, heq⟩ |
    ⟨demand, rfl, hv, -, report, rfl, ⟨e, -, heq⟩ | ⟨-, heq⟩⟩
  · rw [heq]
    exact h
  · rw [heq]
    exact h
  · obtain ⟨hg, hs⟩ := validate_eq_ok hv
    rw [heq]
    refine h.reportChange (d := some _) hg ?_ rfl o now w
    rintro d ⟨⟩
    exact (h.demand group).join hs

theorem Kindred.leave (h : r.Kindred) (o : Outlet ω) (now : Nat) (group : Address)
    (source : Option Address) (w : ω) : (r.leave o now group source w).2.1.Kindred := by
  rcases leave_eq o now group source r w with ⟨heq, -, -⟩ | ⟨held, left, hheld, hv, -, rfl, heq⟩
  · rw [heq]
    exact h
  · obtain ⟨hg, hs⟩ := validate_eq_ok hv
    rw [heq]
    refine h.reportChange hg ?_ ?_ o now w
    · intro d hd
      obtain ⟨-, -, rfl⟩ := Option.map_eq_some_iff.mp hd
      exact (h.demands group held hheld).2.leave hs
    · cases hf : (held.leave source).filter? group with
      | none => rfl
      | some f => exact hf

theorem Kindred.of_sameChanges {r' : Reporter} (h : r.Kindred) (hs : SameChanges r r') :
    r'.Kindred := h.of_eq hs.family hs.demands hs.changes

theorem Kindred.answered (h : r.Kindred) {o : Outlet ω} {w : ω} {s : Reporter × ω}
    (ha : Answered o r w s) : s.1.Kindred := by
  rcases ha with ⟨hsame, -⟩ | ⟨r', records, hsame, -, rfl⟩
  · exact h.of_sameChanges hsame
  · exact (h.of_sameChanges hsame).sendRecords o records w

theorem Kindred.fire (h : r.Kindred) (o : Outlet ω) (now : Nat) (alarm : Alarm) (w : ω) :
    (r.fire o now alarm w).1.Kindred := by
  rcases fire_cases o now alarm r w with ⟨group, -, heq⟩ | ha
  · rw [heq]
    rcases retransmit_cases o now group r w with heq | ⟨pending, p, v, hget, hp, -, heq⟩
    · rw [heq]
      exact h
    · obtain ⟨hg, hc⟩ := h.changes group pending hget
      rw [heq]
      exact (h.setChange hg fun q hq => (hp q hq).symm ▸ hc).sendRecords o _ v
  · exact h.answered ha

end Reporter

end MulticastTunnel.Membership
