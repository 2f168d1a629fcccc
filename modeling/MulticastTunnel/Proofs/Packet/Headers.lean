import Mathlib.Tactic.Common
import MulticastTunnel.Packet
import MulticastTunnel.Proofs.Octets

/-!
# Chains of headers

The walk over IPv6 headers as a relation, with one case for each header that it
can come to. It depends on the octets that it reads and on no others, so it goes
the same way when what follows the chain is replaced; where it ends then is
decided by what comes first in the new octets.
-/

namespace MulticastTunnel

/-- The headers in `rest` lead to a fragment header when the first one is of kind `next`. -/
inductive Nests : UInt8 → Bytes → Prop
  | here (rest : Bytes) : Nests Protocol.fragment rest
  | behind {next : UInt8} {rest : Bytes} : Protocol.isExtension next = true →
      Nests (rest.octet 0) (rest.drop (((rest.octet 1).toNat + 1) * 8)) → Nests next rest

/-- An address depends on its octets alone. -/
theorem Address.read_congr (family : Family) {a b : Bytes}
    (h : ∀ i < family.addressLength, a.octet i = b.octet i) : read family a = read family b := by
  cases family with
  | ipv4 => exact congrArg v4 (Vector.ext fun i hi => by simpa using h i hi)
  | ipv6 => exact congrArg v6 (Vector.ext fun i hi => by simpa using h i hi)

namespace Layout

variable {d d' : Bytes} {next : UInt8} {named here : Nat} {l : Layout}

/-- The layout that a walk ends with. -/
def endingAt (d : Bytes) (named here : Nat) (protocol : UInt8) (payloadStart : Nat)
    (fragment : Option Fragment) : Layout where
  family := .ipv6
  source := .read .ipv6 (d.drop 8)
  destination := .read .ipv6 (d.drop 24)
  protocol
  headerLength := here
  payloadStart
  nextHeaderIndex := named
  fragment

/-- How a walk goes on, or ends. -/
inductive Walks (d : Bytes) : UInt8 → Nat → Nat → Layout → Prop
  | past {next : UInt8} {named here : Nat} {l : Layout} : Protocol.isExtension next = true →
      here + ((d.octet (here + 1)).toNat + 1) * 8 ≤ d.length →
      Walks d (d.octet here) here (here + ((d.octet (here + 1)).toNat + 1) * 8) l →
      Walks d next named here l
  | fragment {named here : Nat} (f : Fragment) : here + fragmentHeaderLength ≤ d.length →
      Walks d Protocol.fragment named here
        (endingAt d named here (d.octet here) (here + fragmentHeaderLength) (some f))
  | ending {next : UInt8} {named here : Nat} : Protocol.isExtension next = false →
      next ≠ Protocol.fragment → Walks d next named here (endingAt d named here next here none)

theorem walks_of_walk (h : walk d next named here = .ok l) : Walks d next named here l := by
  induction next, named, here using walk.induct d with
  | case1 next named here hext hshort =>
    rw [walk, if_pos hext, if_pos hshort] at h
    cases h
  | case2 next named here hext hshort length hlong =>
    rw [walk, if_pos hext, if_neg hshort] at h
    simp only at h
    rw [if_pos hlong] at h
    cases h
  | case3 next named here hext hshort length hlong ih =>
    rw [walk, if_pos hext, if_neg hshort] at h
    simp only at h
    rw [if_neg hlong] at h
    exact .past hext (Nat.le_of_not_lt hlong) (ih h)
  | case4 named here hshort hext =>
    rw [walk, if_neg hext, if_pos rfl, if_pos hshort] at h
    cases h
  | case5 named here hshort hext =>
    rw [walk, if_neg hext, if_pos rfl, if_neg hshort] at h
    cases h
    exact .fragment _ (Nat.le_of_not_lt hshort)
  | case6 next named here hext hfrag =>
    rw [walk, if_neg hext, if_neg hfrag] at h
    cases h
    exact .ending (by simpa using hext) hfrag

/-- The fragment fields of the header at an index. -/
def fragmentAt (d : Bytes) (i : Nat) : Fragment :=
  ⟨d.word16 (i + 2) / 8, d.word16 (i + 2) % 2 = 1, .ofNat (d.word32 (i + 4))⟩

/-- A walk that ends with a fragment came to its header, and read all of it. -/
theorem fragment_of_walk {f : Fragment} (h : walk d next named here = .ok l)
    (hf : l.fragment = some f) :
    f = fragmentAt d l.headerLength ∧ l.protocol = d.octet l.headerLength ∧
      l.payloadStart = l.headerLength + fragmentHeaderLength ∧ l.payloadStart ≤ d.length := by
  induction next, named, here using walk.induct d with
  | case1 next named here hext hshort =>
    rw [walk, if_pos hext, if_pos hshort] at h
    cases h
  | case2 next named here hext hshort length hlong =>
    rw [walk, if_pos hext, if_neg hshort] at h
    simp only at h
    rw [if_pos hlong] at h
    cases h
  | case3 next named here hext hshort length hlong ih =>
    rw [walk, if_pos hext, if_neg hshort] at h
    simp only at h
    rw [if_neg hlong] at h
    exact ih h
  | case4 named here hshort hext =>
    rw [walk, if_neg hext, if_pos rfl, if_pos hshort] at h
    cases h
  | case5 named here hshort hext =>
    rw [walk, if_neg hext, if_pos rfl, if_neg hshort] at h
    cases h
    cases hf
    exact ⟨rfl, rfl, rfl, Nat.le_of_not_lt hshort⟩
  | case6 next named here hext hfrag =>
    rw [walk, if_neg hext, if_neg hfrag] at h
    cases h
    cases hf

/-- An offset has thirteen bits. -/
theorem offset_lt_of_walk {f : Fragment} (h : walk d next named here = .ok l)
    (hf : l.fragment = some f) : f.offset < 8192 := by
  obtain ⟨rfl, -⟩ := fragment_of_walk h hf
  have hword := d.word16_lt (l.headerLength + 2)
  show d.word16 (l.headerLength + 2) / 8 < 8192
  omega

namespace Walks

theorem family (h : Walks d next named here l) :
    l.family = .ipv6 ∧ l.source = .read .ipv6 (d.drop 8) := by
  induction h with
  | past _ _ _ ih => exact ih
  | fragment => exact ⟨rfl, rfl⟩
  | ending => exact ⟨rfl, rfl⟩

/-- The octet that names what follows the chain is the one that named its first
header, or the first of a header in the chain. -/
theorem bounds (h : Walks d next named here l) :
    here ≤ l.headerLength ∧ l.headerLength ≤ max here d.length ∧
      (l.nextHeaderIndex = named ∧ l.headerLength = here ∨
        here ≤ l.nextHeaderIndex ∧ l.nextHeaderIndex < l.headerLength) := by
  induction h with
  | @past next named here l _ _ _ ih => omega
  | fragment => exact ⟨Nat.le_refl _, Nat.le_max_left _ _, .inl ⟨rfl, rfl⟩⟩
  | ending => exact ⟨Nat.le_refl _, Nat.le_max_left _ _, .inl ⟨rfl, rfl⟩⟩

/-- A walk ends at an octet that names what comes behind the repeated headers. -/
theorem names (h : Walks d next named here l) (hnext : next = d.octet named) :
    d.octet l.nextHeaderIndex = if l.fragment.isSome then Protocol.fragment else l.protocol := by
  induction h with
  | past _ _ _ ih => exact ih rfl
  | fragment => exact hnext.symm
  | ending => exact hnext.symm

/-- A whole packet has its payload right behind what its fragments would repeat. -/
theorem payloadStart_of_whole (h : Walks d next named here l)
    (hwhole : l.fragment.isSome = false) : l.payloadStart = l.headerLength := by
  induction h with
  | past _ _ _ ih => exact ih hwhole
  | fragment => cases hwhole
  | ending => rfl

/-- What was walked to begins where there are octets, or right behind them. -/
theorem payloadStart_le (h : Walks d next named here l) :
    l.payloadStart ≤ max here d.length := by
  induction h with
  | past _ _ _ ih => omega
  | fragment f hlong => exact Nat.le_trans hlong (Nat.le_max_right _ _)
  | ending => exact Nat.le_max_left _ _

/-- A walk ends with a fragment when the headers lead to one. -/
theorem isSome_fragment_iff (h : Walks d next named here l) :
    l.fragment.isSome = true ↔ Nests next (d.drop here) := by
  induction h with
  | @past next named here l hext _ _ ih =>
    rw [ih]
    constructor
    · intro hn
      refine .behind hext ?_
      rwa [Bytes.octet_drop, Bytes.octet_drop, List.drop_drop]
    · intro hn
      cases hn with
      | here => cases hext
      | behind _ hn => rwa [Bytes.octet_drop, Bytes.octet_drop, List.drop_drop] at hn
  | fragment f => exact iff_of_true rfl (.here _)
  | ending hext hfrag =>
    refine iff_of_false Bool.false_ne_true fun hn => ?_
    cases hn with
    | here => exact hfrag rfl
    | behind hext' _ =>
      rw [hext] at hext'
      cases hext'

/-- Where a walk came to the end of the headers that every fragment repeats, another one goes on
that finds the same octets before it, but for the one that names what comes next. -/
theorem walk_eq (h : Walks d next named here l)
    (hnext : next = d.octet named) (hnamed : named < here) (hlen : l.headerLength ≤ d'.length)
    (hsame : ∀ i, i = named ∨ here ≤ i → i < l.headerLength → i ≠ l.nextHeaderIndex →
      d'.octet i = d.octet i) :
    walk d' (d'.octet named) named here =
      walk d' (d'.octet l.nextHeaderIndex) l.nextHeaderIndex l.headerLength := by
  induction h with
  | @past next named here l hext hlong hrest ih =>
    obtain ⟨hle, -, hindex⟩ := hrest.bounds
    -- The header is at least eight octets long, so its length is not what was replaced.
    have hkind : d'.octet named = next := by
      rw [hnext]
      exact hsame named (.inl rfl) (by omega) (by omega)
    have hoctet : d'.octet (here + 1) = d.octet (here + 1) :=
      hsame (here + 1) (.inr (by omega)) (by omega) (by omega)
    rw [walk, hkind, if_pos hext, if_neg (by omega), hoctet]
    simp only
    rw [if_neg (by omega)]
    exact ih rfl (by omega) hlen fun i hi => hsame i (.inr (by omega))
  | fragment => rfl
  | ending => rfl

end Walks

end Layout

namespace Packet

/-- A packet with an IPv4 layout, or one whose headers were walked. -/
theorem layout_cases (p : Packet) :
    ((p.bytes.octet 0).toNat / 16 = 4 ∧ p.layout = Layout.readV4 p.bytes) ∨
      ((p.bytes.octet 0).toNat / 16 ≠ 4 ∧
        Layout.Walks p.bytes (p.bytes.octet 6) 6 ipv6HeaderLength p.layout) := by
  have h := p.laidOut
  rw [Layout.read] at h
  split at h
  · next hv => exact .inl ⟨hv, (Except.ok.inj h).symm⟩
  · next hv => exact .inr ⟨hv, Layout.walks_of_walk h⟩

/-- The offset of a fragment counts units in thirteen bits. -/
theorem offset_lt {p : Packet} {f : Fragment} (h : p.fragmentInfo = some f) : f.offset < 8192 := by
  have hl := p.laidOut
  rw [Layout.read] at hl
  split at hl
  · rw [fragmentInfo, ← Except.ok.inj hl, Layout.readV4, Layout.fragmentV4] at h
    simp only at h
    split at h
    · cases h
      exact Nat.mod_lt _ (by decide)
    · cases h
  · exact Layout.offset_lt_of_walk hl h

/-- The source of a packet is of its family. -/
theorem family_source (p : Packet) : p.source.family = p.family := by
  rcases p.layout_cases with ⟨-, hl⟩ | ⟨-, hw⟩
  · rw [source, family, hl]
    exact Address.family_read .ipv4 _
  · obtain ⟨hfamily, hsource⟩ := hw.family
    rw [source, family, hfamily, hsource]
    exact Address.family_read _ _

end Packet

end MulticastTunnel
