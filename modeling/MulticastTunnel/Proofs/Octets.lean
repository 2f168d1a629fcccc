import MulticastTunnel.Bytes

/-!
# Octets and words

The word that two octets write, octets that are overwritten, words that stand among other octets,
and octets that are cut short: writing over octets that are there changes those and keeps the
length.
-/

namespace MulticastTunnel.Bytes

variable {b patch : Bytes} {i n : Nat}

/-- Octets in front of others shift their indices. -/
theorem octet_append_right {pre rest : Bytes} {n : Nat} (h : pre.length = n) (i : Nat) :
    octet (pre ++ rest) (n + i) = octet rest i := by
  subst h
  simp only [octet, List.getD_eq_getElem?_getD]
  rw [List.getElem?_append_right (Nat.le_add_right _ _), Nat.add_sub_cancel_left]

theorem octet_append_left {pre rest : Bytes} (h : i < pre.length) :
    octet (pre ++ rest) i = octet pre i := by
  simp only [octet, List.getD_eq_getElem?_getD]
  rw [List.getElem?_append_left h]

theorem octet_take (h : i < n) : octet (b.take n) i = octet b i := by
  simp only [octet, List.getD_eq_getElem?_getD]
  rw [List.getElem?_take_of_lt h]

theorem word16_take (h : i + 2 ≤ n) : word16 (b.take n) i = word16 b i := by
  rw [word16, word16, octet_take (by omega), octet_take (by omega)]

theorem word32_take (h : i + 4 ≤ n) : word32 (b.take n) i = word32 b i := by
  rw [word32, word32, word16_take (by omega), word16_take (by omega)]

theorem octet_drop (b : Bytes) (n i : Nat) : octet (b.drop n) i = octet b (n + i) := by
  simp [octet, List.getD_eq_getElem?_getD]

theorem word16_drop (b : Bytes) (n i : Nat) : word16 (b.drop n) i = word16 b (n + i) := by
  rw [word16, word16, octet_drop, octet_drop]
  rfl

theorem word32_drop (b : Bytes) (n i : Nat) : word32 (b.drop n) i = word32 b (n + i) := by
  rw [word32, word32, word16_drop, word16_drop]
  rfl

/-- The two octets of a word write it. -/
theorem toNat_ofWord16 {w : Nat} (h : w < 65536) :
    (UInt8.ofNat (w / 256)).toNat * 256 + (UInt8.ofNat w).toNat = w := by
  have hlo : (UInt8.ofNat w).toNat = w % 256 := UInt8.toNat_ofNat'
  have hhi : (UInt8.ofNat (w / 256)).toNat = w / 256 := UInt8.toNat_ofNat_of_lt' (by
    show w / 256 < 256
    omega)
  omega

theorem length_overwrite (h : i + patch.length ≤ b.length) :
    (b.overwrite i patch).length = b.length := by
  simp only [overwrite, List.length_append, List.length_take, List.length_drop]
  omega

theorem getElem?_overwrite (h : i + patch.length ≤ b.length) :
    (b.overwrite i patch)[n]? =
      if i ≤ n ∧ n < i + patch.length then patch[n - i]? else b[n]? := by
  have hi : (b.take i).length = i := by rw [List.length_take]; omega
  rw [overwrite, List.append_assoc]
  by_cases hn : n < i
  · rw [if_neg (by omega), List.getElem?_append_left (by omega), List.getElem?_take_of_lt hn]
  rw [List.getElem?_append_right (by omega), hi]
  by_cases hp : n < i + patch.length
  · rw [if_pos (by omega), List.getElem?_append_left (by omega)]
  · rw [if_neg (by omega), List.getElem?_append_right (by omega), List.getElem?_drop]
    congr 1
    omega

/-- Octets written over others are read, and those around them as before. -/
theorem octet_overwrite (h : i + patch.length ≤ b.length) :
    (b.overwrite i patch).octet n =
      if i ≤ n ∧ n < i + patch.length then patch.octet (n - i) else b.octet n := by
  simp only [octet, List.getD_eq_getElem?_getD, getElem?_overwrite h]
  split <;> rfl

theorem octet_overwrite_of_outside (h : i + patch.length ≤ b.length)
    (hn : n < i ∨ i + patch.length ≤ n) : (b.overwrite i patch).octet n = b.octet n := by
  rw [octet_overwrite h, if_neg (by omega)]

/-- A word that is written over others is read back. -/
theorem word16_overwrite (h : i + 2 ≤ b.length) (w : Nat) :
    (b.overwrite i (.ofWord16 w)).word16 i = w % 65536 := by
  rw [word16, octet_overwrite h, octet_overwrite h, length_ofWord16, if_pos (by omega),
    if_pos (by omega), Nat.sub_self, Nat.add_sub_cancel_left, ← word16_ofWord16 w []]
  rfl

/-- Words are equal when their octets are. -/
theorem word16_congr {c : Bytes} (h : ∀ n, i ≤ n → n < i + 2 → b.octet n = c.octet n) :
    b.word16 i = c.word16 i := by
  rw [word16, word16, h i (Nat.le_refl _) (by omega), h (i + 1) (by omega) (by omega)]

/-! ## Words among other octets -/

section Words

variable {p r : Bytes}

theorem word16_append_right (h : p.length = n) (i : Nat) :
    word16 (p ++ r) (n + i) = word16 r i := by
  rw [word16, Nat.add_assoc, octet_append_right h, octet_append_right h]
  rfl

theorem word32_append_right (h : p.length = n) (i : Nat) :
    word32 (p ++ r) (n + i) = word32 r i := by
  rw [word32, Nat.add_assoc, word16_append_right h, word16_append_right h]
  rfl

theorem word32_ofWord32 (n : Nat) (r : Bytes) :
    word32 (ofWord32 n ++ r) 0 = n % 4294967296 := by
  have hhigh : word16 (ofWord32 n ++ r) 0 = n / 65536 % 65536 := by
    rw [ofWord32, List.append_assoc]
    exact word16_ofWord16 _ _
  have hlow : word16 (ofWord32 n ++ r) 2 = n % 65536 := by
    rw [ofWord32, List.append_assoc]
    exact (word16_append_right (length_ofWord16 _) 0).trans (word16_ofWord16 _ _)
  rw [word32, hhigh, hlow]
  omega

/-- A word is read from where it was written. -/
theorem word32_of_append (h : p.length = n) (w : UInt32) :
    UInt32.ofNat (word32 (p ++ (ofWord32 w.toNat ++ r)) n) = w := by
  have hw := w.toNat_lt
  rw [show word32 (p ++ (ofWord32 w.toNat ++ r)) n = w.toNat % 4294967296 from
    (word32_append_right h 0).trans (word32_ofWord32 _ _), Nat.mod_eq_of_lt hw]
  exact UInt32.ofNat_toNat

theorem word16_of_append (h : p.length = n) (w : UInt16) :
    UInt16.ofNat (word16 (p ++ (ofWord16 w.toNat ++ r)) n) = w := by
  have hw := w.toNat_lt
  rw [show word16 (p ++ (ofWord16 w.toNat ++ r)) n = w.toNat % 65536 from
    (word16_append_right h 0).trans (word16_ofWord16 _ _), Nat.mod_eq_of_lt hw]
  exact UInt16.ofNat_toNat

theorem word16_append_left (h : i + 2 ≤ p.length) : word16 (p ++ r) i = word16 p i :=
  word16_congr fun _ _ hn => octet_append_left (by omega)

/-- Equal words have equal octets. -/
theorem octet_of_word16_eq {c : Bytes} (h : b.word16 i = c.word16 i) :
    b.octet i = c.octet i ∧ b.octet (i + 1) = c.octet (i + 1) := by
  have hb := (b.octet (i + 1)).toNat_lt
  have hc := (c.octet (i + 1)).toNat_lt
  simp only [word16] at h
  exact ⟨UInt8.toNat_inj.mp (by omega), UInt8.toNat_inj.mp (by omega)⟩

end Words

/-- Octets of one length are the same when each of them is. -/
theorem ext_octet {c : Bytes} (hl : b.length = c.length)
    (h : ∀ n < b.length, b.octet n = c.octet n) : b = c := by
  refine List.ext_getElem hl fun n hn hn' => ?_
  have := h n hn
  simpa only [octet, List.getD_eq_getElem?_getD, List.getElem?_eq_getElem hn,
    List.getElem?_eq_getElem hn', Option.getD_some] using this

/-! ## Octets that were cut off -/

/-- Octets that are others with the end cut off. -/
structure Cut (b whole : Bytes) : Prop where
  front : b <+: whole
  shorter : b.length < whole.length

section Cut

variable {pre rest : Bytes}

theorem cut_of_ne (h : b <+: rest) (hne : b ≠ rest) : Cut b rest :=
  ⟨h, Nat.lt_of_le_of_ne h.length_le fun hlen => hne (h.eq_of_length hlen)⟩

/-- A cut spares what is in front of it. -/
theorem Cut.behind (h : Cut b (pre ++ rest)) (hle : pre.length ≤ b.length) :
    ∃ s, Cut s rest ∧ b = pre ++ s := by
  obtain ⟨s, rfl⟩ := List.prefix_of_prefix_length_le (List.prefix_append pre rest) h.front hle
  have hshorter := h.shorter
  rw [List.length_append, List.length_append] at hshorter
  exact ⟨s, ⟨(List.prefix_append_right_inj pre).mp h.front, by omega⟩, rfl⟩

/-- A cut takes all of what is behind it. -/
theorem Cut.before (h : Cut b (pre ++ rest)) (hlt : b.length < pre.length) : Cut b pre :=
  ⟨List.prefix_of_prefix_length_le h.front (List.prefix_append pre rest) (Nat.le_of_lt hlt), hlt⟩

theorem length_append_add_eq_iff {s : Bytes} :
    (pre ++ s).length + n = (pre ++ rest).length ↔ s.length + n = rest.length := by
  rw [List.length_append, List.length_append]
  omega

end Cut

/-! ## Octets that were written anew -/

/-- Octets of one length that are the same, but for those with some indices. -/
structure SameBut (indices : List Nat) (old new : Bytes) : Prop where
  length : new.length = old.length
  octet : ∀ n, n ∉ indices → new.octet n = old.octet n

namespace SameBut

variable {old new newer : Bytes} {is js : List Nat}

theorem trans (h : SameBut is old new) (h' : SameBut js new newer) :
    SameBut (is ++ js) old newer where
  length := h'.length.trans h.length
  octet n hn := by
    rw [List.mem_append, not_or] at hn
    rw [h'.octet n hn.2, h.octet n hn.1]

theorem word16 (h : SameBut is old new) (hi : i ∉ is) (hi' : i + 1 ∉ is) :
    new.word16 i = old.word16 i :=
  word16_congr fun n hlo hhi => by
    obtain rfl | rfl : n = i ∨ n = i + 1 := by omega
    · exact h.octet n hi
    · exact h.octet _ hi'

end SameBut

theorem sameBut_overwrite16 (h : i + 2 ≤ b.length) (w : Nat) :
    SameBut [i, i + 1] b (b.overwrite i (.ofWord16 w)) where
  length := length_overwrite h
  octet n hn := by
    simp only [List.mem_cons, List.not_mem_nil, or_false, not_or] at hn
    exact octet_overwrite_of_outside h (by rw [length_ofWord16]; omega)

theorem sameBut_overwrite (h : i < b.length) (o : UInt8) : SameBut [i] b (b.overwrite i [o]) where
  length := length_overwrite h
  octet n hn := by
    rw [List.mem_singleton] at hn
    exact octet_overwrite_of_outside h (by rw [List.length_singleton]; omega)

/-- An octet that is written over another one is read back. -/
theorem octet_overwrite_self (h : i < b.length) (o : UInt8) : (b.overwrite i [o]).octet i = o := by
  rw [octet_overwrite h, if_pos (by rw [List.length_singleton]; omega), Nat.sub_self]
  rfl

/-- One octet in the place of another. -/
theorem octet_set (h : i < b.length) (o : UInt8) :
    octet (b.set i o) n = if n = i then o else b.octet n := by
  simp only [octet, List.getD_eq_getElem?_getD]
  split
  · next hn => rw [hn, List.getElem?_set_self h, Option.getD_some]
  · next hn => rw [List.getElem?_set_ne (Ne.symm hn)]

theorem octet_set_of_ne (hn : n ≠ i) (o : UInt8) : octet (b.set i o) n = b.octet n := by
  simp only [octet, List.getD_eq_getElem?_getD]
  rw [List.getElem?_set_ne (Ne.symm hn)]

/-- Octets of which one is replaced are replaced there in each part that it is in. -/
theorem slice_set {m : Nat} (h : m ≤ i) (o : UInt8) :
    slice (b.set i o) m n = (b.slice m n).set (i - m) o := by
  rw [slice, slice, List.drop_set, if_neg (Nat.not_lt.mpr h), List.take_set]

theorem slice_set_of_le {m : Nat} (h : m + n ≤ i) (o : UInt8) :
    slice (b.set i o) m n = b.slice m n := by
  rw [slice_set (by omega), List.set_eq_of_length_le]
  rw [slice, List.length_take]
  omega

end MulticastTunnel.Bytes
