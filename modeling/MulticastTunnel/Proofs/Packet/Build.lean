import Mathlib.Tactic.Common
import MulticastTunnel.Packet.Build
import MulticastTunnel.Proofs.Octets

/-!
# Packets that were built

The parser inverts the builders: what is built is an unfragmented packet with
the addresses, protocol, hop limit and payload that were given.
-/

namespace MulticastTunnel

/-! ## Addresses of one family -/

namespace AddressPair

def source : AddressPair → Address
  | .v4 s _ => .v4 s
  | .v6 s _ => .v6 s

def destination : AddressPair → Address
  | .v4 _ d => .v4 d
  | .v6 _ d => .v6 d

theorem of?_source_destination (a : AddressPair) : of? a.source a.destination = some a := by
  cases a <;> rfl

theorem eq_of_of? {s d : Address} {a : AddressPair} (h : of? s d = some a) :
    s = a.source ∧ d = a.destination := by
  cases s <;> cases d <;> cases h <;> exact ⟨rfl, rfl⟩

theorem exists_of?_iff {s d : Address} : (∃ a, of? s d = some a) ↔ s.family = d.family := by
  cases s <;> cases d <;> simp [of?, Address.family]

end AddressPair

namespace Packet

/-- A whole packet with these parts. -/
structure Has (p : Packet) (source destination : Address) (protocol hopLimit : UInt8)
    (payload : Bytes) : Prop where
  family : p.family = source.family
  source : p.source = source
  destination : p.destination = destination
  protocol : p.protocol = protocol
  hopLimit : p.hopLimit = hopLimit
  payload : p.payload = payload
  whole : p.isFragment = false

/-- Octets whose layout is known parse to the packet that they are. -/
theorem parse_eq_ok {b : Bytes} {l : Layout} (hd : declaredLength b = .ok b.length)
    (hl : Layout.read b = .ok l) : parse b = .ok ⟨b, l, hd, hl⟩ := parse_bytes ⟨b, l, hd, hl⟩

/-! ## IPv4 -/

/-- Octets in the order of an IPv4 packet without fragment fields. -/
def octetsV4 (x t₀ t₁ ttl protocol c₀ c₁ : UInt8) (s d : Vector UInt8 4)
    (options payload : Bytes) : Bytes :=
  [x, 0, t₀, t₁, 0, 0, 0, 0, ttl, protocol, c₀, c₁] ++ (s.toList ++ (d.toList ++
    (options ++ payload)))

theorem parse_octetsV4 (x t₀ t₁ ttl protocol c₀ c₁ : UInt8) (s d : Vector UInt8 4)
    (options payload : Bytes) (hx : x.toNat / 16 = 4)
    (hh : x.toNat % 16 * 4 = ipv4HeaderLength + options.length)
    (ht : t₀.toNat * 256 + t₁.toNat = ipv4HeaderLength + options.length + payload.length) :
    ∃ p, parse (octetsV4 x t₀ t₁ ttl protocol c₀ c₁ s d options payload) = .ok p ∧
      p.Has (.v4 s) (.v4 d) protocol ttl payload := by
  set b := octetsV4 x t₀ t₁ ttl protocol c₀ c₁ s d options payload with hb
  have h20 : ipv4HeaderLength = 20 := rfl
  have hlen : b.length = ipv4HeaderLength + options.length + payload.length := by
    simp only [hb, octetsV4, List.length_append, List.length_cons, List.length_nil,
      Vector.length_toList]
    omega
  have h0 : b.octet 0 = x := rfl
  have h2 : b.word16 2 = t₀.toNat * 256 + t₁.toNat := rfl
  have hd : declaredLength b = .ok b.length := by
    have hpos : ¬ b.length = 0 := by omega
    have hmin : ¬ b.length < ipv4HeaderLength := by omega
    have hhead : ¬ (ipv4HeaderLength + options.length < ipv4HeaderLength ∨
        b.length < ipv4HeaderLength + options.length) := by omega
    simp only [declaredLength, h0, h2, hx, hh, ht, ← hlen, hpos, hmin, hhead, if_true, if_false,
      Nat.lt_irrefl]
  have hl : Layout.read b = .ok (Layout.readV4 b) := by
    rw [Layout.read, h0, if_pos hx]
  refine ⟨_, parse_eq_ok hd hl, ?_⟩
  have hs : Address.read .ipv4 (b.drop 12) = .v4 s := Address.read_octets (.v4 s) _
  have hdst : b.drop 16 = d.toList ++ (options ++ payload) := by
    show (s.toList ++ (d.toList ++ (options ++ payload))).drop 4 = _
    exact List.drop_left' (by simp)
  have hpay : b.drop (ipv4HeaderLength + options.length) = payload := by
    have happ : b = ([x, 0, t₀, t₁, 0, 0, 0, 0, ttl, protocol, c₀, c₁] ++ s.toList ++ d.toList ++
        options) ++ payload := by
      simp [hb, octetsV4]
    rw [happ]
    apply List.drop_left'
    simp only [List.length_append, List.length_cons, List.length_nil, Vector.length_toList,
      ipv4HeaderLength]
  have hfrag : Layout.fragmentV4 b = none := by
    have h6 : b.word16 6 = 0 := by
      show (0 : UInt8).toNat * 256 + (0 : UInt8).toNat = 0
      decide
    simp [Layout.fragmentV4, h6]
  constructor
  · rfl
  · exact hs
  · show Address.read .ipv4 (b.drop 16) = .v4 d
    rw [hdst]
    exact Address.read_octets (.v4 d) _
  · rfl
  · rfl
  · show b.drop ((b.octet 0).toNat % 16 * 4) = payload
    rw [h0, hh, hpay]
  · show (Layout.fragmentV4 b).isSome = false
    rw [hfrag]
    rfl

/-- The octets of an IPv4 option field, filled up to whole words. -/
def filledOptions (options : Bytes) : Bytes :=
  options ++ Bytes.zeros ((options.length + 3) / 4 * 4 - options.length)

theorem length_filledOptions (options : Bytes) :
    (filledOptions options).length = (options.length + 3) / 4 * 4 := by
  simp only [filledOptions, List.length_append, Bytes.zeros, List.length_replicate]
  omega

/-- Sealing changes the checksum field and nothing else. -/
theorem exists_sealHeader (a₀ a₁ a₂ a₃ a₄ a₅ a₆ a₇ a₈ a₉ u v : UInt8) (rest : Bytes) :
    ∃ c₀ c₁, sealHeader ([a₀, a₁, a₂, a₃, a₄, a₅, a₆, a₇, a₈, a₉, u, v] ++ rest) =
      [a₀, a₁, a₂, a₃, a₄, a₅, a₆, a₇, a₈, a₉, c₀, c₁] ++ rest :=
  ⟨_, _, rfl⟩

theorem octetsV4_append (x t₀ t₁ ttl protocol c₀ c₁ : UInt8) (s d : Vector UInt8 4)
    (options payload : Bytes) :
    octetsV4 x t₀ t₁ ttl protocol c₀ c₁ s d options [] ++ payload =
      octetsV4 x t₀ t₁ ttl protocol c₀ c₁ s d options payload := by
  simp only [octetsV4, List.append_assoc, List.nil_append]

/-- What an IPv4 packet that can be described is parsed from: a sealed header that tells its own
length and that of the packet. -/
theorem exists_octetsV4 (s d : Vector UInt8 4) (protocol ttl : UInt8) (options payload : Bytes)
    (hopt : options.length ≤ 40)
    (hlen : ipv4HeaderLength + (filledOptions options).length + payload.length ≤
      maxDatagramLength) :
    ∃ x t₀ t₁ c₀ c₁ header, x.toNat / 16 = 4 ∧
      x.toNat % 16 * 4 = ipv4HeaderLength + (filledOptions options).length ∧
      t₀.toNat * 256 + t₁.toNat =
        ipv4HeaderLength + (filledOptions options).length + payload.length ∧
      ipv4HeaderLength ≤ header.length ∧
      sealHeader header =
        octetsV4 x t₀ t₁ ttl protocol c₀ c₁ s d (filledOptions options) [] ∧
      buildV4 s d protocol ttl options payload =
        parse (octetsV4 x t₀ t₁ ttl protocol c₀ c₁ s d (filledOptions options) payload) := by
  have h20 : ipv4HeaderLength = 20 := rfl
  have hmax : maxDatagramLength = 65535 := rfl
  rw [length_filledOptions] at hlen ⊢
  have hhead : ¬ 60 < ipv4HeaderLength + (options.length + 3) / 4 * 4 := by omega
  simp only [buildV4, hhead, Nat.not_lt.mpr hlen, if_false]
  set n := (options.length + 3) / 4 * 4 with hn
  set total := ipv4HeaderLength + n + payload.length with htotal
  have hx : (UInt8.ofNat (64 + (ipv4HeaderLength + n) / 4)).toNat = 64 + 5 + n / 4 := by
    rw [UInt8.toNat_ofNat_of_lt' (by show _ < 256; omega)]
    omega
  have hword := Bytes.toNat_ofWord16 (w := total) (by omega)
  have hheader : [UInt8.ofNat (64 + (ipv4HeaderLength + n) / 4), 0] ++ Bytes.ofWord16 total ++
      Bytes.zeros 4 ++ [ttl, protocol, 0, 0] ++ s.toList ++ d.toList ++ options ++
        Bytes.zeros (n - options.length) =
      [UInt8.ofNat (64 + (ipv4HeaderLength + n) / 4), 0, UInt8.ofNat (total / 256),
        UInt8.ofNat total, 0, 0, 0, 0, ttl, protocol, 0, 0] ++
        (s.toList ++ (d.toList ++ (filledOptions options ++ []))) := by
    have hz : Bytes.zeros 4 = [0, 0, 0, 0] := rfl
    simp only [hz, Bytes.ofWord16, filledOptions, List.append_assoc, List.cons_append,
      List.nil_append, List.append_nil, ← hn]
  rw [hheader]
  set header := [UInt8.ofNat (64 + (ipv4HeaderLength + n) / 4), 0, UInt8.ofNat (total / 256),
    UInt8.ofNat total, 0, 0, 0, 0, ttl, protocol, 0, 0] ++
    (s.toList ++ (d.toList ++ (filledOptions options ++ []))) with hdef
  obtain ⟨c₀, c₁, hseal⟩ := exists_sealHeader (UInt8.ofNat (64 + (ipv4HeaderLength + n) / 4)) 0
    (UInt8.ofNat (total / 256)) (UInt8.ofNat total) 0 0 0 0 ttl protocol 0 0
    (s.toList ++ (d.toList ++ (filledOptions options ++ [])))
  rw [← hdef] at hseal
  refine ⟨_, _, _, c₀, c₁, header, by omega, by omega, hword, ?_, hseal, ?_⟩
  · rw [hdef, List.length_append, List.length_append, List.length_append, List.length_append]
    simp only [List.length_cons, List.length_nil, Vector.length_toList]
    omega
  · rw [← octetsV4_append, octetsV4, ← hseal]

/-- An IPv4 packet that can be described is built. -/
theorem buildV4_eq_ok (s d : Vector UInt8 4) (protocol ttl : UInt8) (options payload : Bytes)
    (hopt : options.length ≤ 40)
    (hlen : ipv4HeaderLength + (filledOptions options).length + payload.length ≤
      maxDatagramLength) :
    ∃ p, buildV4 s d protocol ttl options payload = .ok p ∧
      p.Has (.v4 s) (.v4 d) protocol ttl payload := by
  obtain ⟨x, t₀, t₁, c₀, c₁, -, hx, hh, ht, -, -, hbuild⟩ :=
    exists_octetsV4 s d protocol ttl options payload hopt hlen
  rw [hbuild]
  exact parse_octetsV4 x t₀ t₁ ttl protocol c₀ c₁ s d (filledOptions options) payload hx hh ht

theorem buildV4_eq_tooLarge (s d : Vector UInt8 4) (protocol ttl : UInt8)
    (options payload : Bytes) (hopt : options.length ≤ 40)
    (hlarge : maxDatagramLength <
      ipv4HeaderLength + (options.length + 3) / 4 * 4 + payload.length) :
    buildV4 s d protocol ttl options payload = .error .tooLarge := by
  have h20 : ipv4HeaderLength = 20 := rfl
  rw [buildV4, if_neg (by omega), if_pos hlarge]

/-! ## IPv6 -/

/-- Octets in the order of an IPv6 packet with extension headers. -/
def octetsV6 (t₀ t₁ first hopLimit : UInt8) (s d : Vector UInt8 16)
    (extension payload : Bytes) : Bytes :=
  [0x60, 0, 0, 0, t₀, t₁, first, hopLimit] ++ (s.toList ++ (d.toList ++
    (extension ++ payload)))

theorem walk_ending (b : Bytes) (named here : Nat) {next : UInt8}
    (hnext : Protocol.isExtension next = false) (hfrag : next ≠ Protocol.fragment) :
    Layout.walk b next named here = .ok
      { family := .ipv6
        source := .read .ipv6 (b.drop 8)
        destination := .read .ipv6 (b.drop 24)
        protocol := next
        headerLength := here
        payloadStart := here
        nextHeaderIndex := named
        fragment := none } := by
  rw [Layout.walk, hnext]
  simp only [Bool.false_eq_true, if_false, hfrag]

/-- A walk that comes to the payload behind the extension headers lays out the
whole packet. -/
theorem parse_octetsV6 (t₀ t₁ first hopLimit next : UInt8) (s d : Vector UInt8 16)
    (extension payload : Bytes)
    (ht : t₀.toNat * 256 + t₁.toNat = extension.length + payload.length)
    (hnext : Protocol.isExtension next = false) (hfrag : next ≠ Protocol.fragment)
    (hwalk : ∃ named,
      Layout.walk (octetsV6 t₀ t₁ first hopLimit s d extension payload) first 6
          ipv6HeaderLength =
        Layout.walk (octetsV6 t₀ t₁ first hopLimit s d extension payload) next named
          (ipv6HeaderLength + extension.length)) :
    ∃ p, parse (octetsV6 t₀ t₁ first hopLimit s d extension payload) = .ok p ∧
      p.Has (.v6 s) (.v6 d) next hopLimit payload := by
  obtain ⟨named, hwalk⟩ := hwalk
  set b := octetsV6 t₀ t₁ first hopLimit s d extension payload with hb
  have h40 : ipv6HeaderLength = 40 := rfl
  have hlen : b.length = ipv6HeaderLength + (extension.length + payload.length) := by
    simp only [hb, octetsV6, List.length_append, List.length_cons, List.length_nil,
      Vector.length_toList]
    omega
  have h0 : (b.octet 0).toNat / 16 = 6 := by
    show (0x60 : UInt8).toNat / 16 = 6
    decide
  have h4 : b.word16 4 = t₀.toNat * 256 + t₁.toNat := rfl
  have h6 : b.octet 6 = first := rfl
  have hd : declaredLength b = .ok b.length := by
    have hpos : ¬ b.length = 0 := by omega
    have hmin : ¬ b.length < ipv6HeaderLength := by omega
    simp only [declaredLength, h0, h4, ht, ← hlen, hpos, hmin, if_true, if_false, or_self,
      Nat.lt_irrefl, show ¬ 6 = 4 by decide]
  have hl := walk_ending b named (ipv6HeaderLength + extension.length) hnext hfrag
  have hread : Layout.read b = Layout.walk b next named (ipv6HeaderLength + extension.length) := by
    rw [Layout.read, h0, if_neg (by decide), h6, hwalk]
  refine ⟨_, parse_eq_ok hd (hread.trans hl), ?_⟩
  have hdst : b.drop 24 = d.toList ++ (extension ++ payload) := by
    show (s.toList ++ (d.toList ++ (extension ++ payload))).drop 16 = _
    exact List.drop_left' (by simp)
  have hpay : b.drop (ipv6HeaderLength + extension.length) = payload := by
    have happ : b = ([0x60, 0, 0, 0, t₀, t₁, first, hopLimit] ++ s.toList ++ d.toList ++
        extension) ++ payload := by
      simp only [hb, octetsV6, List.append_assoc]
    rw [happ]
    apply List.drop_left'
    simp only [List.length_append, List.length_cons, List.length_nil, Vector.length_toList]
    omega
  constructor
  · rfl
  · exact Address.read_octets (.v6 s) _
  · show Address.read .ipv6 (b.drop 24) = .v6 d
    rw [hdst]
    exact Address.read_octets (.v6 d) _
  · rfl
  · rfl
  · exact hpay
  · rfl

/-- An IPv6 packet without extension headers that can be described is built. -/
theorem buildV6_plain (s d : Vector UInt8 16) (next hopLimit : UInt8) (payload : Bytes)
    (hnext : Protocol.isExtension next = false) (hfrag : next ≠ Protocol.fragment)
    (hlen : payload.length ≤ maxDatagramLength) :
    ∃ t₀ t₁ p, t₀.toNat * 256 + t₁.toNat = payload.length ∧
      parse (octetsV6 t₀ t₁ next hopLimit s d [] payload) = .ok p ∧
      buildV6 s d next hopLimit none payload = .ok p ∧
      p.Has (.v6 s) (.v6 d) next hopLimit payload := by
  have hmax : maxDatagramLength = 65535 := rfl
  have hword := Bytes.toNat_ofWord16 (w := payload.length) (by omega)
  obtain ⟨p, hp, hhas⟩ := parse_octetsV6 (UInt8.ofNat (payload.length / 256))
    (UInt8.ofNat payload.length) next hopLimit next s d [] payload
    (by rw [hword, List.length_nil, Nat.zero_add]) hnext hfrag ⟨6, rfl⟩
  refine ⟨_, _, p, hword, hp, ?_, hhas⟩
  rw [← hp]
  simp only [buildV6, Option.map_none, Option.getD_none, Option.isSome_none, List.length_nil,
    Nat.zero_add, Nat.not_lt.mpr hlen, if_false, Bool.false_eq_true]
  congr 1
  simp only [octetsV6, Bytes.ofWord16, List.append_assoc, List.cons_append, List.nil_append]

theorem length_padding (n : Nat) : (padding n).length = n := by
  match n with
  | 0 => rfl
  | 1 => rfl
  | n + 2 => simp [padding, Bytes.zeros]

theorem length_hopByHopHeader (next : UInt8) (options : Bytes) :
    (hopByHopHeader next options).length = (2 + options.length + 7) / 8 * 8 := by
  simp only [hopByHopHeader, List.length_append, List.length_cons, List.length_nil,
    length_padding]
  omega

/-- The length of a hop-by-hop header that its length octet tells, at most 2048. -/
def hopByHopLength (options : Bytes) : Nat := ((2 + options.length + 7) / 8 - 1) % 256 * 8 + 8

theorem hopByHopLength_le (next : UInt8) (options : Bytes) :
    hopByHopLength options ≤ (hopByHopHeader next options).length := by
  rw [length_hopByHopHeader, hopByHopLength]
  omega

/-- The length octet tells the length of the header when the options are short enough for it. -/
theorem hopByHopLength_eq_iff (next : UInt8) (options : Bytes) :
    hopByHopLength options = (hopByHopHeader next options).length ↔ options.length ≤ 2046 := by
  rw [length_hopByHopHeader, hopByHopLength]
  omega

/-- A walk passes over one hop-by-hop header, as far as its length octet tells. -/
theorem walk_hopByHop {t₀ t₁ hopLimit : UInt8} {s d : Vector UInt8 16}
    {extension payload : Bytes}
    (hlength : ((extension.octet 1).toNat + 1) * 8 = extension.length) :
    Layout.walk (octetsV6 t₀ t₁ Protocol.hopByHop hopLimit s d extension payload)
        Protocol.hopByHop 6 ipv6HeaderLength =
      Layout.walk (octetsV6 t₀ t₁ Protocol.hopByHop hopLimit s d extension payload)
        (extension.octet 0) ipv6HeaderLength (ipv6HeaderLength + extension.length) := by
  set b := octetsV6 t₀ t₁ Protocol.hopByHop hopLimit s d extension payload with hb
  have h40 : ipv6HeaderLength = 40 := rfl
  have hlen : b.length = ipv6HeaderLength + (extension.length + payload.length) := by
    simp only [hb, octetsV6, List.length_append, List.length_cons, List.length_nil,
      Vector.length_toList]
    omega
  have happ : b = ([0x60, 0, 0, 0, t₀, t₁, Protocol.hopByHop, hopLimit] ++ s.toList ++ d.toList) ++
      (extension ++ payload) := by
    simp only [hb, octetsV6, List.append_assoc]
  have hpre : ([0x60, 0, 0, 0, t₀, t₁, Protocol.hopByHop, hopLimit] ++ s.toList ++
      d.toList).length = ipv6HeaderLength := by
    simp only [List.length_append, List.length_cons, List.length_nil, Vector.length_toList]
    omega
  have hoctet : ∀ i < extension.length, b.octet (ipv6HeaderLength + i) = extension.octet i := by
    intro i hi
    rw [happ, Bytes.octet_append_right hpre, Bytes.octet_append_left hi]
  have hroom : ¬ b.length < ipv6HeaderLength + 2 := by omega
  have hroom' : ¬ b.length < ipv6HeaderLength + extension.length := by omega
  rw [Layout.walk]
  simp only [show Protocol.isExtension Protocol.hopByHop = true from rfl, if_true, hroom,
    hoctet 1 (by omega), hlength, hroom', if_false, ← hoctet 0 (by omega), Nat.add_zero]

theorem octet_hopByHopHeader (next : UInt8) (options : Bytes) :
    (hopByHopHeader next options).octet 0 = next ∧
      (((hopByHopHeader next options).octet 1).toNat + 1) * 8 = hopByHopLength options := by
  refine ⟨rfl, ?_⟩
  have hoctet : ((hopByHopHeader next options).octet 1).toNat =
      ((2 + options.length + 7) / 8 * 8 / 8 - 1) % 256 := UInt8.toNat_ofNat'
  rw [hoctet, hopByHopLength]
  omega

/-- An IPv6 packet with hop-by-hop options is built when its length can be described. What of the
hop-by-hop header the length octet does not tell stands in front of the payload. -/
theorem buildV6_hopByHop (s d : Vector UInt8 16) (next hopLimit : UInt8) (options payload : Bytes)
    (hnext : Protocol.isExtension next = false) (hfrag : next ≠ Protocol.fragment)
    (hlen : (hopByHopHeader next options).length + payload.length ≤ maxDatagramLength) :
    ∃ t₀ t₁ p, t₀.toNat * 256 + t₁.toNat = (hopByHopHeader next options).length + payload.length ∧
      parse (octetsV6 t₀ t₁ Protocol.hopByHop hopLimit s d (hopByHopHeader next options) payload) =
        .ok p ∧
      buildV6 s d next hopLimit (some options) payload = .ok p ∧
      p.Has (.v6 s) (.v6 d) next hopLimit
        ((hopByHopHeader next options).drop (hopByHopLength options) ++ payload) := by
  have hle := hopByHopLength_le next options
  obtain ⟨hnamed, htold⟩ := octet_hopByHopHeader next options
  set extension := hopByHopHeader next options with hext
  set total := extension.length + payload.length with htotal
  set told : Bytes := extension.take (hopByHopLength options) with htolddef
  set rest : Bytes := extension.drop (hopByHopLength options) with hrest
  have hsplit : told ++ rest = extension := List.take_append_drop _ _
  have hmax : maxDatagramLength = 65535 := rfl
  have hword := Bytes.toNat_ofWord16 (w := total) (by omega)
  have hlength : told.length = hopByHopLength options := by
    rw [htolddef, List.length_take, Nat.min_eq_left hle]
  have hmin : 8 ≤ hopByHopLength options := Nat.le_add_left _ _
  have hrestlen : told.length + rest.length = extension.length := by
    rw [← hsplit, List.length_append]
  -- The walk passes over what the length octet tells, and comes to the payload there.
  have hwalk := @walk_hopByHop (UInt8.ofNat (total / 256)) (UInt8.ofNat total) hopLimit s d
    told (rest ++ payload) (by rw [hlength, htolddef, Bytes.octet_take (by omega), htold])
  rw [htolddef, Bytes.octet_take (by omega), hnamed, ← htolddef] at hwalk
  obtain ⟨p, hp, hhas⟩ := parse_octetsV6 (UInt8.ofNat (total / 256)) (UInt8.ofNat total)
    Protocol.hopByHop hopLimit next s d told (rest ++ payload)
    (by rw [hword, List.length_append]; omega) hnext hfrag ⟨ipv6HeaderLength, hwalk⟩
  rw [octetsV6, ← List.append_assoc told, hsplit, ← octetsV6] at hp
  refine ⟨_, _, p, hword, hp, ?_, hhas⟩
  rw [← hp]
  simp only [buildV6, Option.map_some, Option.getD_some, Option.isSome_some, if_true, ← hext,
    ← htotal, Nat.not_lt.mpr hlen, if_false]
  congr 1
  simp only [octetsV6, Bytes.ofWord16, List.append_assoc, List.cons_append, List.nil_append]

/-- An IPv6 packet with hop-by-hop options that can be described is built. -/
theorem buildV6_eq_ok (s d : Vector UInt8 16) (next hopLimit : UInt8) (options payload : Bytes)
    (hnext : Protocol.isExtension next = false) (hfrag : next ≠ Protocol.fragment)
    (hopt : options.length ≤ 2046)
    (hlen : (hopByHopHeader next options).length + payload.length ≤ maxDatagramLength) :
    ∃ p, buildV6 s d next hopLimit (some options) payload = .ok p ∧
      p.Has (.v6 s) (.v6 d) next hopLimit payload := by
  obtain ⟨-, -, p, -, -, hp, hhas⟩ :=
    buildV6_hopByHop s d next hopLimit options payload hnext hfrag hlen
  rw [(hopByHopLength_eq_iff next options).mpr hopt, List.drop_length, List.nil_append] at hhas
  exact ⟨p, hp, hhas⟩

end Packet

end MulticastTunnel
