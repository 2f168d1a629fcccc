import MulticastTunnel.Bytes
import MulticastTunnel.Ordered.Insertion

/-!
# Addresses

IP addresses of both families and the sockets reached at them. Addresses are
ordered with IPv4 first and then by their octets; `rank` is that order as a
number, and two addresses of one rank are the same address.
-/

namespace MulticastTunnel

/-- The two address families. IPv4 carries IGMP, IPv6 carries MLD. -/
inductive Family
  | ipv4
  | ipv6
deriving DecidableEq, Repr

namespace Family

/-- The number in the first half octet of a datagram. -/
def version : Family → UInt8
  | .ipv4 => 4
  | .ipv6 => 6

def name : Family → String
  | .ipv4 => "IPv4"
  | .ipv6 => "IPv6"

def addressLength : Family → Nat
  | .ipv4 => 4
  | .ipv6 => 16

end Family

inductive Address
  | v4 (octets : Vector UInt8 4)
  | v6 (octets : Vector UInt8 16)
deriving DecidableEq

namespace Address

def family : Address → Family
  | .v4 _ => .ipv4
  | .v6 _ => .ipv6

def octets : Address → Bytes
  | .v4 o => o.toList
  | .v6 o => o.toList

/-- The address of `family` at the start of `b`, whose length callers check. -/
def read (family : Family) (b : Bytes) : Address :=
  match family with
  | .ipv4 => .v4 (Vector.ofFn fun i => b.octet i)
  | .ipv6 => .v6 (Vector.ofFn fun i => b.octet i)

/-- The address whose octets are exactly `b`: four for IPv4, sixteen for IPv6. -/
def ofOctets? (b : Bytes) : Option Address :=
  if b.length = 4 then some (read .ipv4 b)
  else if b.length = 16 then some (read .ipv6 b)
  else none

def unspecified (family : Family) : Address := read family []

def isUnspecified (a : Address) : Bool := a.octets.all (· = 0)

/-- IPv4 224.0.0.0 to 239.255.255.255, IPv6 with a first octet of 255. -/
def isMulticast : Address → Bool
  | .v4 o => decide ((224 : UInt8) ≤ o[0] ∧ o[0] ≤ (239 : UInt8))
  | .v6 o => o[0] = 255

/-- The IPv6 form of an IPv4 address: ten zero octets, two of 255, the address. -/
def mapped (o : Vector UInt8 4) : Vector UInt8 16 :=
  #v[0, 0, 0, 0, 0, 0, 0, 0, 0, 0, 255, 255, o[0], o[1], o[2], o[3]]

/-- The IPv4 address that an IPv6 address is the mapped form of. -/
def mapped? (o : Vector UInt8 16) : Option (Vector UInt8 4) :=
  let tail := #v[o[12], o[13], o[14], o[15]]
  if o = mapped tail then some tail else none

theorem length_octets (a : Address) : a.octets.length = a.family.addressLength := by
  cases a <;> simp [octets, family, Family.addressLength]

@[simp] theorem family_read (f : Family) (b : Bytes) : (read f b).family = f := by
  cases f <;> rfl

/-- An address is read back from its octets, whatever follows them. -/
theorem read_octets (a : Address) (rest : Bytes) : read a.family (a.octets ++ rest) = a := by
  cases a with
  | v4 o =>
    simp only [read, octets, family, v4.injEq]
    ext i hi
    simp [Bytes.octet, List.getD_eq_getElem?_getD, List.getElem?_append_left]
  | v6 o =>
    simp only [read, octets, family, v6.injEq]
    ext i hi
    simp [Bytes.octet, List.getD_eq_getElem?_getD, List.getElem?_append_left]

theorem ofOctets?_octets (a : Address) : ofOctets? a.octets = some a := by
  have h := length_octets a
  have hr := read_octets a []
  simp only [List.append_nil] at hr
  cases a with
  | v4 o => simpa [ofOctets?, h, family, Family.addressLength] using hr
  | v6 o => simpa [ofOctets?, h, family, Family.addressLength] using hr

/-- The address whose octets write a number that is greater by `n`. -/
def plus (a : Address) (n : Nat) : Address :=
  let v := a.octets.value + n
  let length := a.family.addressLength
  .read a.family ((List.range length).map fun i => UInt8.ofNat (v / Bytes.weight (length - 1 - i)))

/-- IPv4 addresses before IPv6 ones, each by the number its octets write. -/
def rank : Address → Nat
  | .v4 o => Bytes.value o.toList
  | .v6 o => Bytes.weight 4 + Bytes.value o.toList

theorem rank_v4_lt (o : Vector UInt8 4) : Bytes.value o.toList < Bytes.weight 4 := by
  simpa using Bytes.value_lt o.toList

theorem rank_injective (a b : Address) (h : rank a = rank b) : a = b := by
  cases a with
  | v4 o =>
    cases b with
    | v4 p =>
      exact congrArg v4 (Vector.toList_inj.mp (Bytes.eq_of_value_eq (by simp) h))
    | v6 p => have := rank_v4_lt o; simp only [rank] at h; omega
  | v6 o =>
    cases b with
    | v4 p => have := rank_v4_lt p; simp only [rank] at h; omega
    | v6 p =>
      simp only [rank] at h
      exact congrArg v6 (Vector.toList_inj.mp (Bytes.eq_of_value_eq (by simp) (by omega)))

/-- IPv4 addresses before IPv6 ones, each by the first octets that differ. -/
def order : Address → Address → Ordering
  | .v4 o, .v4 p => Bytes.orderFrom o p 0
  | .v4 _, .v6 _ => .lt
  | .v6 _, .v4 _ => .gt
  | .v6 o, .v6 p => Bytes.orderFrom o p 0

theorem order_eq (a b : Address) : order a b = compare (rank a) (rank b) := by
  cases a with
  | v4 o =>
    cases b with
    | v4 p => simp [order, rank, Bytes.orderFrom_eq]
    | v6 p =>
      refine (Nat.compare_eq_lt.mpr ?_).symm
      simp only [rank]
      have := rank_v4_lt o
      omega
  | v6 o =>
    cases b with
    | v4 p =>
      refine (Nat.compare_eq_gt.mpr ?_).symm
      simp only [rank]
      have := rank_v4_lt p
      omega
    | v6 p =>
      simp only [order, rank, Bytes.orderFrom_eq, List.drop_zero, Nat.compare_eq_ite_lt]
      simp

instance : Ordered.Ranked Address where
  rank := rank
  rank_injective := rank_injective
  order := order
  order_eq := order_eq

end Address

/-- The octets of an address of each family, when both are of the same one. -/
inductive AddressPair
  | v4 (source destination : Vector UInt8 4)
  | v6 (source destination : Vector UInt8 16)

/-- Two addresses of one family, none when the families differ. -/
def AddressPair.of? : Address → Address → Option AddressPair
  | .v4 s, .v4 d => some (.v4 s d)
  | .v6 s, .v6 d => some (.v6 s d)
  | _, _ => none

/-- A port at an address. `flowinfo` is the flow and `scope` the link of an IPv6
address, both part of what a socket is compared by. Messages carry neither, and
text has only the link. -/
structure SocketAddress where
  address : Address
  port : UInt16
  flowinfo : UInt32 := 0
  scope : UInt32 := 0
deriving DecidableEq

end MulticastTunnel
