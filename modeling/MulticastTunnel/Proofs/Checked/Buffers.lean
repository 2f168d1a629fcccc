import MulticastTunnel.Proofs.Checked.Checksum
import MulticastTunnel.Proofs.Checked.Holes
import MulticastTunnel.Proofs.Checked.Packets
import MulticastTunnel.Proofs.Reassembly.Overlap

/-!
# Fragments are put together safely

A fragment is copied to its place in the data, which grows first if need be. The data of a buffer
reaches up to the end that was told, since a fragment that was accepted ended there. The header
that the datagram is rebuilt with was looked at when the first fragment was parsed.
-/

namespace MulticastTunnel.Checked

open Reassembly Packet

variable {ε : Type} {b : Buffer} {A : List Arrival} {p first : Packet} {f : Fragment} {T : Nat}
  {data : Bytes}

/-- A buffer that begins with a header of `n` octets, with the checksum of these written in. -/
def sealed (buf : Bytes) (n : Nat) : Checked ε Bytes := do
  let buf ← overwrite buf 10 12 [0, 0]
  let covered ← upTo buf n
  let sum ← add {} covered
  let sum ← finish sum
  overwrite buf 10 12 (.ofWord16 sum.toNat)

/-- The datagram with the header of a first fragment. -/
def rebuilt (first : Packet) (data : Bytes) : Checked PacketError Packet := do
  let header ← upTo first.bytes first.layout.headerLength
  let total ← word (header.length + data.length)
  let limit ← word (maxDatagramLength + ipv6HeaderLength)
  if limit < total ∨ (first.family = .ipv4 ∧ maxDatagramLength < total) then .refused .tooLarge
  else
    match first.family with
    | .ipv4 => do
      let buf ← overwrite header 2 4 (.ofWord16 total)
      let flags ← word16 buf 6
      let buf ← overwrite buf 6 8 (.ofWord16 (flags / 16384 % 2 * 16384))
      let buf ← sealed buf header.length
      parse (buf ++ data)
    | .ipv6 => do
      let length ← minus total ipv6HeaderLength
      if maxDatagramLength < length then .refused .tooLarge
      else
        let buf ← overwrite header 4 6 (.ofWord16 length)
        let buf ← replace buf first.layout.nextHeaderIndex first.protocol
        parse (buf ++ data)

/-- The data with octets copied to a range, both ends included. -/
def write (data : Bytes) (first last : Nat) (patch : Bytes) : Checked ε Bytes := do
  let stop ← word (last + 1)
  let grown := if data.length ≤ last then data ++ .zeros (stop - data.length) else data
  overwrite grown first stop patch

/-- The buffer with the fragment added, none if the fragment is malformed. -/
def addFragment (b : Buffer) (p : Packet) (f : Fragment) : Checked ε (Option Buffer) := do
  let payload ← payload p
  if payload.isEmpty then pure none
  else if f.more ∧ payload.length % 8 ≠ 0 then pure none
  else
    let first ← word (f.offset * 8)
    let stop ← word (first + payload.length)
    let last ← minus stop 1
    if maxDatagramLength ≤ last then pure none
    else
      let stop ← word (last + 1)
      if !b.fits last f.more then pure none
      else
        let data ← write b.data first last payload
        let holes ← fill b.holes first last f.more
        pure (some { b with
          data
          total := if f.more then b.total else some stop
          first := if f.offset = 0 ∧ b.first.isNone then some p else b.first
          holes })

def assemble (b : Buffer) : Checked ε (Option (Except PacketError Packet)) :=
  match b.first, b.total with
  | some first, some total => do
    let data ← upTo b.data total
    let datagram ← attempt (rebuilt first data)
    pure (some datagram)
  | _, _ => pure none

/-! ## Rebuilding -/

theorem overwrite16_eq {b : Bytes} {i n : Nat} (w : Nat) (h : i + 2 = n) (hn : n ≤ b.length) :
    (overwrite b i n (.ofWord16 w) : Checked ε Bytes) = .value (b.overwrite i (.ofWord16 w)) :=
  overwrite_eq (by rw [Bytes.length_ofWord16]; exact h) hn

theorem sealed_eq {header : Bytes} (hmin : 20 ≤ header.length) (hmax : header.length ≤ 65575) :
    (sealed header header.length : Checked ε Bytes) = .value (sealHeader header) := by
  have hblank : (header.overwrite 10 [0, 0]).length = header.length :=
    Bytes.length_overwrite (by simp only [List.length_cons, List.length_nil]; omega)
  have hsum := sum_add_le {} (header.overwrite 10 [0, 0])
  simp only [Nat.zero_add] at hsum
  have hzeros : 10 + ([0, 0] : Bytes).length = 12 := rfl
  rw [sealed, overwrite_eq hzeros (by omega), value_bind, ← hblank, upTo_eq (Nat.le_refl _),
    value_bind, List.take_length, add_eq _ (by simp only; omega), value_bind,
    finish_eq _ (by omega), value_bind, overwrite16_eq _ rfl (by omega)]
  rfl

theorem rebuilt_v4_eq (first : Packet) (hv : (first.bytes.octet 0).toNat / 16 = 4)
    (hl : first.layout = Layout.readV4 first.bytes) (h : data.length ≤ 65535) :
    rebuilt first data = of (first.reassembled data) := by
  have h20 : ipv4HeaderLength = 20 := rfl
  have h40 : ipv6HeaderLength = 40 := rfl
  have hmax : maxDatagramLength = 65535 := rfl
  have hfamily : first.family = .ipv4 := by rw [Packet.family, hl]; rfl
  have hmin := (first.headerLength_v4 hv).1
  have hindex := (first.bytes.octet 0).toNat_lt
  have hlen : first.header.length = (first.bytes.octet 0).toNat % 16 * 4 := by
    rw [first.length_header, hl]
    rfl
  rw [rebuilt, upTo_eq (first.headerLength_le), value_bind, ← header, reassembled]
  generalize first.header = header at hlen ⊢
  simp (disch := omega) only [word_eq, value_bind, hfamily, true_and]
  split
  · next hbig => rw [if_pos (by omega)]; rfl
  next hsmall =>
  rw [if_neg (by omega)]
  have hsized := Bytes.sameBut_overwrite16 (show 2 + 2 ≤ header.length by omega)
    (header.length + data.length)
  rw [overwrite16_eq _ rfl (by omega), value_bind]
  generalize header.overwrite 2 _ = sized at hsized ⊢
  have hlsized := hsized.length
  have hcleared := Bytes.sameBut_overwrite16 (show 6 + 2 ≤ sized.length by omega)
    (header.word16 6 / 16384 % 2 * 16384)
  rw [word16_eq (by omega), value_bind, hsized.word16 (by decide) (by decide),
    overwrite16_eq _ rfl (by omega), value_bind, ← hlsized, ← hcleared.length,
    sealed_eq (by rw [hcleared.length]; omega) (by rw [hcleared.length]; omega), value_bind,
    parse_eq]

theorem rebuilt_v6_eq (first : Packet) (hv : (first.bytes.octet 0).toNat / 16 ≠ 4)
    (hwalk : Layout.Walks first.bytes (first.bytes.octet 6) 6 ipv6HeaderLength first.layout)
    (h : data.length ≤ 65535) : rebuilt first data = of (first.reassembled data) := by
  have h40 : ipv6HeaderLength = 40 := rfl
  have hmax : maxDatagramLength = 65535 := rfl
  have hfamily : first.family = .ipv6 := hwalk.family.1
  have hend := (first.length_v6 hv).2
  have hword := first.bytes.word16_lt 4
  obtain ⟨hmin, hbound, hindex⟩ := hwalk.bounds
  have hlen := first.length_header
  rw [rebuilt, upTo_eq (first.headerLength_le), value_bind, ← header, reassembled]
  generalize first.header = header at hlen ⊢
  simp (disch := omega) only [word_eq, value_bind, hfamily, reduceCtorEq, false_and, or_false]
  split
  · rfl
  next hsmall =>
  have hsized := (Bytes.sameBut_overwrite16 (show 4 + 2 ≤ header.length by omega)
    (header.length + data.length - ipv6HeaderLength)).length
  rw [minus_eq (by omega), value_bind, if_neg (by omega), overwrite16_eq _ rfl (by omega),
    value_bind, replace_eq (by omega), value_bind, parse_eq]

theorem rebuilt_eq (first : Packet) (h : data.length ≤ 65535) :
    rebuilt first data = of (first.reassembled data) := by
  rcases first.layout_cases with ⟨hv, hl⟩ | ⟨hv, hwalk⟩
  · exact rebuilt_v4_eq first hv hl h
  · exact rebuilt_v6_eq first hv hwalk h

/-! ## Adding a fragment -/

theorem write_eq {patch : Bytes} {start last : Nat} (h : start + patch.length = last + 1)
    (hlast : last < 65535) :
    (write data start last patch : Checked ε Bytes) = .value (Buffer.write data start patch) := by
  have hgrown : data ++ Bytes.zeros (start + patch.length - data.length) =
      if data.length ≤ last then data ++ .zeros (last + 1 - data.length) else data := by
    split
    · rw [h]
    · rw [Nat.sub_eq_zero_of_le (by omega), Bytes.zeros, List.replicate_zero, List.append_nil]
  rw [write, word_eq (by omega), value_bind, Buffer.write, hgrown]
  refine overwrite_eq h ?_
  split
  · rw [List.length_append, Bytes.zeros, List.length_replicate]
    omega
  · omega

theorem addFragment_eq (hf : p.fragmentInfo = some f) (h : Keeps A b) :
    (addFragment b p f : Checked ε (Option Buffer)) = .value (b.add? p f) := by
  have hmax : maxDatagramLength = 65535 := rfl
  have hoffset := Packet.offset_lt hf
  have hlen := p.length_payload_le
  obtain ⟨xs, hrep, -⟩ := h.holes
  rw [addFragment, payload_eq, value_bind, Buffer.add?, Fragment.start]
  split
  · rfl
  next hempty =>
  have hpos : 0 < p.payload.length := List.length_pos_iff.mpr (by simpa using hempty)
  split
  · rfl
  simp (disch := omega) only [word_eq, value_bind, minus_eq]
  split
  · rfl
  next hsmall =>
  split
  · rfl
  · rw [write_eq (by omega) (by omega), value_bind, fill_eq (by omega) hrep, value_bind, pure_eq]

/-! ## Completion -/

/-- The data of a buffer reaches up to the end that was told. -/
theorem total_le (h : Keeps A b) (ht : b.total = some T) : T ≤ b.data.length ∧ T ≤ 65535 := by
  obtain ⟨q, hq, -, rfl⟩ := h.total T ht
  obtain ⟨hpos, hstop⟩ := h.bounds q hq
  have hcovers : q.Covers (q.stop - 1) := ⟨by omega, by omega⟩
  obtain ⟨l, hl⟩ : ∃ l, latest? A (q.stop - 1) = some l :=
    Option.ne_none_iff_exists'.mp fun hnone => latest?_eq_none_iff.mp hnone q hq hcovers
  have hlt := h.lt_length hl
  exact ⟨by omega, hstop⟩

theorem assemble_eq (h : Keeps A b) :
    (assemble b : Checked ε _) = .value b.assemble? := by
  rw [assemble, Buffer.assemble?]
  cases b.first with
  | none => rfl
  | some first =>
    cases ht : b.total with
    | none => rfl
    | some T =>
      obtain ⟨hdata, hmax⟩ := total_le h ht
      have hlen : (b.data.take T).length ≤ 65535 := by rwa [List.length_take, Nat.min_eq_left hdata]
      simp only [upTo_eq hdata, value_bind, rebuilt_eq first hlen, attempt_of, pure_eq]
      rfl

end MulticastTunnel.Checked
