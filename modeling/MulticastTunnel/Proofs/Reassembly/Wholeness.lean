import MulticastTunnel.Proofs.Packet.Rebuilt
import MulticastTunnel.Proofs.Reassembly.Accounting

/-!
# What is handed out

A reassembler hands out whole packets as they come, and datagrams that it rebuilt
from fragments that it was given. A rebuilt datagram is whole, but for one whose
payload begins with headers that lead to another fragment header: nothing looks
for one there.
-/

namespace MulticastTunnel.Reassembly.Reassembler

variable {r s : Reassembler} {os os' : List (Reassembler × Packet)} {p q : Packet} {now : Nat}
  {op : Operation} {log log' : List Packet}

/-! ## Where datagrams come from -/

/-- The packets that an operation hands out. -/
def handed (op : Operation) (r : Reassembler) : List Packet :=
  match op with
  | .process p now => (r.process p now).1.toOption.getD []
  | .evict now => (r.evict now).1.completed
  | .close => []

/-- The datagrams that were completed when fragments were offered. -/
def completedIn (now : Nat) (os : List (Reassembler × Packet)) : List Packet :=
  os.flatMap fun o => (o.1.offer o.2 now).1.datagrams

theorem completedIn_cons (now : Nat) (o : Reassembler × Packet)
    (os : List (Reassembler × Packet)) :
    completedIn now (o :: os) = (o.1.offer o.2 now).1.datagrams ++ completedIn now os :=
  List.flatMap_cons

theorem completedIn_append (now : Nat) (os os' : List (Reassembler × Packet)) :
    completedIn now (os ++ os') = completedIn now os ++ completedIn now os' :=
  List.flatMap_append

theorem Pass.completed_foldl (now : Nat) (rest : List Packet) (pass : Pass) :
    (rest.foldl (Pass.step now) pass).completed =
      pass.completed ++ completedIn now (Pass.offers now pass rest) := by
  induction rest generalizing pass with
  | nil => exact (List.append_nil _).symm
  | cons p rest ih =>
    have hstep : (pass.step now p).completed =
        pass.completed ++ (pass.state.offer p now).1.datagrams := by
      simp only [Pass.step]
      cases (pass.state.offer p now).1 <;> simp [Admission.datagrams]
    rw [List.foldl_cons, ih, hstep, Pass.offers, completedIn_cons, List.append_assoc]

theorem completed_retryPass (r : Reassembler) (now : Nat) :
    (r.retryPass now).1 =
      completedIn now (Pass.offers now { state := { r with waiting := [] } } r.waiting) :=
  Pass.completed_foldl now r.waiting _

theorem completed_retryPasses (r : Reassembler) (now n : Nat) :
    (r.retryPasses now n).1 = completedIn now (r.retryOffers now n) := by
  induction n generalizing r with
  | zero => rfl
  | succ n ih =>
    have hpass := completed_retryPass r now
    simp only [retryOffers, retryPasses, completedIn_append, ← hpass]
    split
    · rename_i hempty
      rw [List.isEmpty_iff.mp hempty]
      rfl
    · exact congrArg _ (ih _)

/-- An operation hands out a whole packet as it is, and what its offers complete. -/
theorem handed_eq (op : Operation) (r : Reassembler) :
    r.handed op = completedIn op.time (r.offers op) ∨
      ∃ p now, op = .process p now ∧ p.isFragment = false ∧ r.handed op = [p] := by
  cases op with
  | process p now =>
    cases hp : p.isFragment with
    | false =>
      refine .inr ⟨p, now, rfl, hp, ?_⟩
      simp only [handed, process, hp]
      rfl
    | true =>
      refine .inl ?_
      simp only [handed, process, hp, offers, Operation.time, Bool.not_true, Bool.false_eq_true,
        if_false, completedIn_cons]
      generalize r.offer p now = o
      obtain ⟨a, s⟩ := o
      cases a with
      | denied =>
        simp only [enqueue]
        split <;> rfl
      | complete d =>
        exact congrArg (d :: ·) (completed_retryPasses s now s.waiting.length)
      | started => exact completed_retryPasses s now s.waiting.length
      | progress => rfl
      | dropped => rfl
  | evict now =>
    refine .inl ?_
    simp only [handed, offers, evict, Operation.time]
    split
    · rfl
    · exact completed_retryPasses (r.withoutExpired now) now _
  | close => exact .inl rfl

/-! ## What datagrams are made of -/

/-- The datagram was rebuilt from a fragment in the log that starts it. -/
def RebuiltFrom (log : List Packet) (d : Packet) : Prop :=
  ∃ first ∈ log, ∃ payload, first.fragmentInfo.map (·.offset) = some 0 ∧
    first.reassembled payload = .ok d

theorem RebuiltFrom.mono (h : RebuiltFrom log q) (hsub : ∀ p ∈ log, p ∈ log') :
    RebuiltFrom log' q := by
  obtain ⟨first, hfirst, payload, hzero, hq⟩ := h
  exact ⟨first, hsub first hfirst, payload, hzero, hq⟩

/-- The buffer rebuilds a datagram from one of the fragments that made it. -/
theorem MadeOf.rebuilt {key : FragmentKey} {as : List Arrival} {b : Buffer}
    (h : MadeOf log key as b) (hq : b.assemble? = some (.ok q)) : RebuiltFrom log q := by
  obtain ⟨created, haccepted⟩ := h.accepted
  have hkeeps := keeps_offerAll created as
  rw [haccepted] at hkeeps
  obtain ⟨first, hfirst, hq⟩ := Option.bind_eq_some_iff.mp hq
  obtain ⟨total, -, hq⟩ := Option.bind_eq_some_iff.mp hq
  rw [hkeeps.first] at hfirst
  obtain ⟨a, ha, rfl⟩ := Option.map_eq_some_iff.mp hfirst
  have hzero : a.info.offset = 0 := by simpa using List.find?_some ha
  have hmem : a ∈ as := by simpa using List.mem_of_find?_eq_some ha
  refine ⟨a.packet, h.logged.subset (List.mem_map_of_mem hmem), _, ?_, Option.some.inj hq⟩
  rw [(h.own a hmem).2, Option.map_some, hzero]

theorem rebuilt_of_offer (h : Filled log r) (hp : p.isFragment = true)
    (hq : q ∈ (r.offer p now).1.datagrams) : RebuiltFrom (log ++ absorbedIn now [(r, p)]) q := by
  obtain ⟨key, f, hkey, hinfo⟩ := exists_key_of_isFragment hp
  obtain ⟨as, hmade⟩ := h.buffer key now
  have ho := offered_offer r now hkey hinfo
  have hlog : (r.offer p now).1.absorbs = true → absorbedIn now [(r, p)] = [p] := fun ha => by
    simp [absorbedIn, ha]
  generalize r.offer p now = o at ho hlog hq
  obtain ⟨a, s⟩ := o
  cases ho with
  | @complete b d hadd _ hd =>
    cases List.mem_singleton.mp hq
    rw [hlog rfl]
    exact (hmade.add? hkey hinfo hadd).rebuilt hd
  | _ => cases hq

/-- Along a chain of offers, datagrams are rebuilt from what was absorbed until then. -/
theorem rebuilt_of_offers (h : Filled log r) (ho : Offers now r os s)
    (hfrag : ∀ o ∈ os, o.2.isFragment = true) (hq : q ∈ completedIn now os) :
    RebuiltFrom (log ++ absorbedIn now os) q := by
  induction ho generalizing log with
  | refl r => cases hq
  | queue waiting octets _ ih => exact ih h hfrag hq
  | @offer r s os p _ ih =>
    obtain ⟨hp, hrest⟩ := List.forall_mem_cons.mp hfrag
    rw [absorbedIn_cons, ← List.append_assoc]
    rw [completedIn_cons] at hq
    rcases List.mem_append.mp hq with hq | hq
    · exact (rebuilt_of_offer h hp hq).mono fun _ hm => List.mem_append_left _ hm
    · exact ih (h.offer hp now) hrest hq

/-! ## Runs -/

/-- What was absorbed in a run was given to it. -/
theorem mem_taken_of_mem_absorbed (limits : Limits) (ops : List Operation)
    (hp : p ∈ total absorbed { limits } ops) : p ∈ total taken { limits } ops := by
  refine (books_run limits ops).once.mem_iff.mp ?_
  exact List.mem_append_left _ (List.mem_append_left _ (List.mem_append_left _ hp))

/-- **What is handed out**, whatever was asked before. It is a whole packet that was
just given, or it was rebuilt from a fragment that was given. Such a datagram is a
fragment only in IPv6, when the header that the fragment header named leads to
another fragment header in the payload. -/
theorem handed_whole_or_nested (limits : Limits) (ops : List Operation) (op : Operation) :
    ∀ q ∈ (run limits ops).handed op,
      ((∃ now, op = .process q now) ∧ q.isFragment = false) ∨
      ∃ first ∈ total taken { limits } (ops ++ [op]), ∃ payload,
        first.fragmentInfo.map (·.offset) = some 0 ∧ first.reassembled payload = .ok q ∧
        (q.isFragment = true ↔ first.family = .ipv6 ∧ Nests first.protocol payload) := by
  intro q hq
  have hbooks := books_run limits ops
  rcases handed_eq op (run limits ops) with heq | ⟨p, now, hop, hp, heq⟩
  · refine .inr ?_
    rw [heq] at hq
    have hfilled := hbooks.buffers.congr (cleared_spec op (run limits ops)).1
    obtain ⟨first, hfirst, payload, hzero, hrebuilt⟩ :=
      rebuilt_of_offers hfilled (offers_apply op _)
        (fun _ ho => isFragment_of_mem_offers hbooks.isFragment ho) hq
    have hlog : first ∈ total absorbed { limits } (ops ++ [op]) := by
      rw [total_concat]
      exact hfirst
    exact ⟨first, mem_taken_of_mem_absorbed limits _ hlog, payload, hzero, hrebuilt,
      Packet.isFragment_reassembled_iff hrebuilt⟩
  · rw [heq] at hq
    cases List.mem_singleton.mp hq
    exact .inl ⟨⟨now, hop⟩, hp⟩

/-- The datagram that is handed out with its last fragment was rebuilt from the first one. -/
theorem whole_rebuilt :
    twoFragments.whole ∈ (run {} [.process headFragment 0]).handed (.process tailFragment 1) ∧
      ∃ first ∈ [headFragment, tailFragment], ∃ payload,
        first.reassembled payload = .ok twoFragments.whole ∧
        ¬ (first.family = .ipv6 ∧ Nests first.protocol payload) := by
  have hq : twoFragments.whole ∈
      (run {} [.process headFragment 0]).handed (.process tailFragment 1) := by decide +kernel
  have htaken : total taken { limits := {} } [.process headFragment 0, .process tailFragment 1] =
      [headFragment, tailFragment] := by decide +kernel
  refine ⟨hq, ?_⟩
  rcases handed_whole_or_nested {} [.process headFragment 0] (.process tailFragment 1) _ hq with
    ⟨⟨now, hop⟩, -⟩ | ⟨first, hfirst, payload, -, hrebuilt, hiff⟩
  · have hne : tailFragment ≠ twoFragments.whole := by decide +kernel
    exact absurd (Operation.process.inj hop).1 hne
  · refine ⟨first, htaken ▸ hfirst, payload, hrebuilt, fun hnests => ?_⟩
    have hwhole : twoFragments.whole.isFragment = false := by decide +kernel
    rw [hiff.mpr hnests] at hwhole
    cases hwhole

/-- A fragment that is a datagram by itself, and carries a fragment of another one. -/
def nestingFragment : Packet :=
  (fragmentV6? 1 Protocol.fragment 0 ([17, 0, 0, 1, 0, 0, 0, 2] ++ [1, 2, 3, 4, 5, 6, 7, 8])).get
    (by decide +kernel)

/-- Not everything that is handed out is whole: the fragment that another one
carries is handed out as a datagram. -/
theorem nested_handed_out :
    ¬ ∀ (limits : Limits) (ops : List Operation) (op : Operation),
      ∀ q ∈ (run limits ops).handed op, q.isFragment = false := by
  intro h
  have hsome : ((run {} []).handed (.process nestingFragment 0)).any (·.isFragment) = true := by
    decide +kernel
  obtain ⟨q, hq, hfrag⟩ := List.any_eq_true.mp hsome
  rw [h {} [] (.process nestingFragment 0) q hq] at hfrag
  cases hfrag

end MulticastTunnel.Reassembly.Reassembler
