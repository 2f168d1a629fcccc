import MulticastTunnel.Proofs.Checked.Membership
import MulticastTunnel.Proofs.Checked.Messages
import MulticastTunnel.Proofs.Checked.Reassembly

/-!
# Input from the network is handled safely

Whatever octets arrive, no step of a decoder traps, and neither does a step of a reassembler,
whatever was asked of it before. What is malformed ends in an error of the decoder, or in a fragment
that is dropped and counted.
-/

namespace MulticastTunnel.Checked

open Reassembly Reassembler

/-- A fragment that the buffer of its datagram refuses, or that completes a datagram which cannot
be rebuilt. -/
def Malformed (r : Reassembler) (p : Packet) (now : Nat) : Prop :=
  ∃ key f, FragmentKey.of? p = some key ∧ p.fragmentInfo = some f ∧
    ∀ b, (r.buffer key now).add? p f = some b →
      b.isComplete = true ∧ ∀ d, b.assemble? ≠ some (.ok d)

variable {r : Reassembler} {p : Packet} {now : Nat}

/-- A malformed fragment is dropped and counted, once there is a slot to look at it. -/
theorem Malformed.offer (h : Malformed r p now) :
    (r.offer p now).1 = .denied ∨
      (r.offer p now).1 = .dropped ∧
        (r.offer p now).2.stats.dropped = r.stats.dropped + 1 := by
  obtain ⟨key, f, hkey, hinfo, hbad⟩ := h
  have ho := offered_offer r now hkey hinfo
  generalize r.offer p now = o at ho ⊢
  obtain ⟨a, s⟩ := o
  cases ho with
  | denied => exact .inl rfl
  | refused => exact .inr ⟨rfl, rfl⟩
  | discarded => exact .inr ⟨rfl, rfl⟩
  | complete hadd _ hd => exact absurd hd ((hbad _ hadd).2 _)
  | started _ _ hadd hc =>
    rw [(hbad _ hadd).1] at hc
    cases hc
  | progress _ hadd hc =>
    rw [(hbad _ hadd).1] at hc
    cases hc

theorem process_of_dropped (hp : p.isFragment = true) (h : (r.offer p now).1 = .dropped) :
    r.process p now = (.ok [], (r.offer p now).2) := by
  rw [Reassembler.process, hp]
  generalize r.offer p now = o at h ⊢
  obtain ⟨a, s⟩ := o
  cases h
  rfl

/-- A fragment that is denied a slot waits for one, if the budget leaves room for it. -/
theorem process_of_denied (hp : p.isFragment = true) (h : (r.offer p now).1 = .denied) :
    (r.process p now).1 = .error (.budgetExceeded r.waitingOctets p.length r.limits.budget) ∨
      (r.process p now).1 = .ok [] ∧ (r.process p now).2.waiting = r.waiting ++ [p] := by
  have ho := outcome_offer r p now
  rw [Reassembler.process, hp]
  generalize r.offer p now = o at h ho ⊢
  obtain ⟨a, s⟩ := o
  cases h
  cases ho
  simp only [Bool.not_true, Bool.false_eq_true, if_false, Reassembler.enqueue]
  split
  · exact .inl rfl
  · exact .inr ⟨rfl, rfl⟩

/-- **Safe inputs**: each decoder ends, for any octets and any packet, with the value or the error
that it is defined to have, and none of its steps traps. So does a reassembler with any packet
after any operations, provided that the number of octets which wait can be told: the budget leaves
room for one more packet, or they are all in memory. A malformed fragment is dropped and counted as
soon as there is a slot. Until then it waits, or it is an error that there is no room for it. All
that an operation drops is counted, and so are the malformed fragments that waited. -/
theorem inputs_handled_safely :
    (∀ b : Bytes, message b = of (Message.decode b) ∧
      parts b = of ((Packet.parse b).map partsOf)) ∧
    (∀ p : Packet, query p = of (Membership.Query.ofPacket p) ∧
      report p = of (Membership.Report.ofPacket p) ∧ datagram p = of (Datagram.parse p) ∧
      (keyOf p : Checked Empty _) = .value (FragmentKey.of? p)) ∧
    (∀ (limits : Limits) (ops : List Operation) (p : Packet) (now : Nat),
      limits.budget + 65575 < wordSize ∨ Resident ((run limits ops).waiting ++ [p]) →
      (process (run limits ops) p now : Checked Empty _) =
        .value ((run limits ops).process p now)) ∧
    (∀ (r : Reassembler) (p : Packet) (now : Nat), Malformed r p now →
      (r.offer p now).1 = .dropped ∧ (r.offer p now).2.stats.dropped = r.stats.dropped + 1 ∧
          r.process p now = (.ok [], (r.offer p now).2) ∨
        (r.offer p now).1 = .denied ∧
          ((r.process p now).1 =
              .error (.budgetExceeded r.waitingOctets p.length r.limits.budget) ∨
            (r.process p now).1 = .ok [] ∧ (r.process p now).2.waiting = r.waiting ++ [p])) ∧
    ∀ (limits : Limits) (ops : List Operation) (op : Operation),
      ((run limits ops).apply op).stats.dropped =
        (run limits ops).stats.dropped + ((run limits ops).dropped op).length := by
  refine ⟨fun b => ⟨message_eq b, parts_eq b⟩,
    fun p => ⟨query_eq p, report_eq p, datagram_eq p, keyOf_eq p⟩,
    fun limits ops p now h => process_eq (sound_run limits ops) (octets_lt limits ops p h) now,
    fun r p now h => ?_,
    fun limits ops op => dropped_apply op (books_run limits ops).isFragment⟩
  have hp : p.isFragment = true := by
    obtain ⟨key, f, -, hinfo, -⟩ := h
    exact Option.isSome_iff_exists.mpr ⟨f, hinfo⟩
  rcases h.offer with hdenied | ⟨hdropped, hcounted⟩
  · exact .inr ⟨hdenied, process_of_denied hp hdenied⟩
  · exact .inl ⟨hdropped, hcounted, process_of_dropped hp hdropped⟩

/-- Without a limit on the octets that wait, one fragment waits when the end of a datagram comes
that cannot be rebuilt. -/
theorem overlongEnd_handled_safely :
    let limits : Limits := { slots := 1, budget := wordSize }
    let r := run limits [.process overlongStart 0, .process otherStart 0]
    ¬ limits.budget + 65575 < wordSize ∧ Resident (r.waiting ++ [overlongEnd]) ∧
      Malformed r overlongEnd 0 ∧
      (process r overlongEnd 0 : Checked Empty _) = .value (r.process overlongEnd 0) ∧
      r.process overlongEnd 0 = (.ok [], (r.offer overlongEnd 0).2) := by
  intro limits r
  have hwaiting : r.waiting = [otherStart] := by decide +kernel
  have hresident : Resident (r.waiting ++ [overlongEnd]) := by
    rw [hwaiting]
    exact resident_of_totalLength_lt (by decide +kernel)
  have hmalformed : Malformed r overlongEnd 0 := by
    obtain ⟨key, f, hkey, hinfo⟩ := exists_key_of_isFragment
      (show overlongEnd.isFragment = true by decide +kernel)
    refine ⟨key, f, hkey, hinfo, fun b hb => ?_⟩
    have hdiscards : ((FragmentKey.of? overlongEnd).bind fun key =>
        overlongEnd.fragmentInfo.bind fun f => (r.buffer key 0).add? overlongEnd f).bind
          (fun b => b.assemble?.map fun d => (b.isComplete, d.toOption.isSome)) =
        some (true, false) := by decide +kernel
    rw [hkey, hinfo, Option.bind_some, Option.bind_some, hb, Option.bind_some,
      Option.map_eq_some_iff] at hdiscards
    obtain ⟨d, hd, hends⟩ := hdiscards
    obtain ⟨hcomplete, herror⟩ := Prod.mk.inj hends
    refine ⟨hcomplete, fun d' hd' => ?_⟩
    cases Option.some.inj (hd.symm.trans hd')
    cases herror
  refine ⟨by decide, hresident, hmalformed, ?_, ?_⟩
  · exact inputs_handled_safely.2.2.1 limits _ overlongEnd 0 (.inr hresident)
  · have hoffer : (r.offer overlongEnd 0).1 ≠ .denied := by decide +kernel
    rcases inputs_handled_safely.2.2.2.1 r overlongEnd 0 hmalformed with ⟨-, -, h⟩ | ⟨h, -⟩
    · exact h
    · exact absurd h hoffer

end MulticastTunnel.Checked
