/-!
# Insertion into ordered lists

Lists in strictly ascending order of a number attached to each element. An
insertion replaces the element that carries the same number, so a list has at
most one element per number, and it is fixed by the elements it holds. The
numbers say what the order is; elements are compared without working them out.
-/

namespace MulticastTunnel.Ordered

/-- A type whose elements are told apart and ordered by a number. `order`
compares two elements as their numbers compare. -/
class Ranked (α : Type) where
  rank : α → Nat
  rank_injective : ∀ a b, rank a = rank b → a = b
  order : α → α → Ordering := fun a b => compare (rank a) (rank b)
  order_eq : ∀ a b, order a b = compare (rank a) (rank b) := by intros; rfl

export Ranked (rank order)

instance : Ranked Nat where
  rank := id
  rank_injective _ _ h := h

instance : Ranked UInt16 where
  rank := UInt16.toNat
  rank_injective _ _ h := UInt16.toNat_inj.mp h

/-- No element comes before every element. -/
instance {α : Type} [Ranked α] : Ranked (Option α) where
  rank
    | none => 0
    | some a => rank a + 1
  rank_injective a b h := by
    cases a <;> cases b <;> simp only [Nat.add_right_cancel_iff] at h
    · rfl
    · omega
    · omega
    · exact congrArg some (Ranked.rank_injective _ _ h)
  order
    | none, none => .eq
    | none, some _ => .lt
    | some _, none => .gt
    | some a, some b => order a b
  order_eq a b := by
    cases a <;> cases b <;> simp [Nat.compare_eq_ite_lt, Ranked.order_eq]

/-- No two elements are equal in the order. -/
theorem order_eq_eq_iff {α : Type} [Ranked α] {a b : α} : order a b = .eq ↔ a = b := by
  rw [Ranked.order_eq, Nat.compare_eq_eq]
  exact ⟨Ranked.rank_injective a b, congrArg rank⟩

/-- The numbers of the elements ascend strictly. -/
def Ascending {α : Type} (key : α → Nat) (xs : List α) : Prop :=
  xs.Pairwise fun a b => key a < key b

/-- `xs` with `x` in its place, instead of the element that equals it in the
order. -/
def insertBy {α : Type} (order : α → α → Ordering) (x : α) : List α → List α
  | [] => [x]
  | y :: ys =>
    match order x y with
    | .lt => x :: y :: ys
    | .eq => x :: ys
    | .gt => y :: insertBy order x ys

/-- An order that compares elements as their numbers compare. -/
def Follows {α : Type} (order : α → α → Ordering) (key : α → Nat) : Prop :=
  ∀ a b, order a b = compare (key a) (key b)

theorem insertBy_cons {α : Type} {order : α → α → Ordering} {key : α → Nat}
    (ho : Follows order key) (x y : α) (ys : List α) :
    insertBy order x (y :: ys) =
      if key x < key y then x :: y :: ys
      else if key x = key y then x :: ys
      else y :: insertBy order x ys := by
  have h := ho x y
  rw [Nat.compare_eq_ite_lt] at h
  rcases Nat.lt_trichotomy (key x) (key y) with hxy | hxy | hxy
  · simp [insertBy, h, hxy]
  · simp [insertBy, h, hxy]
  · simp [insertBy, h, hxy, Nat.lt_asymm hxy, Nat.ne_of_gt hxy]

theorem eq_or_mem_of_mem_insertBy {α : Type} {order : α → α → Ordering} {x a : α} {xs : List α}
    (h : a ∈ insertBy order x xs) : a = x ∨ a ∈ xs := by
  induction xs with
  | nil => simpa [insertBy] using h
  | cons y ys ih =>
    simp only [insertBy] at h
    split at h
    · simpa using h
    · rcases List.mem_cons.mp h with h | h
      · exact .inl h
      · exact .inr (List.mem_cons_of_mem _ h)
    · rcases List.mem_cons.mp h with h | h
      · exact .inr (h ▸ List.mem_cons_self)
      · rcases ih h with h | h
        · exact .inl h
        · exact .inr (List.mem_cons_of_mem _ h)

theorem ascending_insertBy {α : Type} {order : α → α → Ordering} {key : α → Nat}
    (ho : Follows order key) (x : α) {xs : List α} (h : Ascending key xs) :
    Ascending key (insertBy order x xs) := by
  induction xs with
  | nil => simp [insertBy, Ascending]
  | cons y ys ih =>
    obtain ⟨hy, hys⟩ := List.pairwise_cons.mp h
    rw [insertBy_cons ho]
    split
    · rename_i hlt
      refine List.pairwise_cons.mpr ⟨fun a ha => ?_, h⟩
      rcases List.mem_cons.mp ha with rfl | ha
      · exact hlt
      · exact Nat.lt_trans hlt (hy a ha)
    · split
      · rename_i heq
        exact List.pairwise_cons.mpr ⟨fun a ha => heq ▸ hy a ha, hys⟩
      · rename_i h₁ h₂
        refine List.pairwise_cons.mpr ⟨fun a ha => ?_, ih hys⟩
        rcases eq_or_mem_of_mem_insertBy ha with rfl | ha
        · omega
        · exact hy a ha

theorem Ascending.filter {α : Type} {key : α → Nat} (p : α → Bool) {xs : List α}
    (h : Ascending key xs) : Ascending key (xs.filter p) :=
  List.Pairwise.filter p h

/-- In an ascending list the elements of the old list that keep their place
after an insertion are those of another number. -/
theorem mem_insertBy_iff {α : Type} {order : α → α → Ordering} {key : α → Nat}
    (ho : Follows order key) {x a : α} {xs : List α} (h : Ascending key xs) :
    a ∈ insertBy order x xs ↔ a = x ∨ (a ∈ xs ∧ key a ≠ key x) := by
  induction xs with
  | nil => simp [insertBy]
  | cons y ys ih =>
    obtain ⟨hy, hys⟩ := List.pairwise_cons.mp h
    have later : ∀ b ∈ ys, key y < key b := hy
    rw [insertBy_cons ho]
    split
    · rename_i hlt
      constructor
      · intro ha
        rcases List.mem_cons.mp ha with ha | ha
        · exact .inl ha
        · refine .inr ⟨ha, ?_⟩
          rcases List.mem_cons.mp ha with rfl | ha
          · omega
          · have := later a ha; omega
      · rintro (rfl | ⟨ha, -⟩)
        · exact List.mem_cons_self
        · exact List.mem_cons_of_mem _ ha
    · split
      · rename_i heq
        constructor
        · intro ha
          rcases List.mem_cons.mp ha with ha | ha
          · exact .inl ha
          · exact .inr ⟨List.mem_cons_of_mem _ ha, by have := later a ha; omega⟩
        · rintro (rfl | ⟨ha, hne⟩)
          · exact List.mem_cons_self
          · rcases List.mem_cons.mp ha with rfl | ha
            · exact absurd heq.symm hne
            · exact List.mem_cons_of_mem _ ha
      · rename_i h₁ h₂
        constructor
        · intro ha
          rcases List.mem_cons.mp ha with rfl | ha
          · exact .inr ⟨List.mem_cons_self, fun e => h₂ e.symm⟩
          · rcases (ih hys).mp ha with ha | ⟨ha, hne⟩
            · exact .inl ha
            · exact .inr ⟨List.mem_cons_of_mem _ ha, hne⟩
        · rintro (rfl | ⟨ha, hne⟩)
          · exact List.mem_cons_of_mem _ ((ih hys).mpr (.inl rfl))
          · rcases List.mem_cons.mp ha with rfl | ha
            · exact List.mem_cons_self
            · exact List.mem_cons_of_mem _ ((ih hys).mpr (.inr ⟨ha, hne⟩))

/-- Two ascending lists with the same elements are the same list. -/
theorem Ascending.eq_of_mem_iff {α : Type} {key : α → Nat} {xs ys : List α}
    (hx : Ascending key xs) (hy : Ascending key ys) (h : ∀ a, a ∈ xs ↔ a ∈ ys) : xs = ys := by
  induction xs generalizing ys with
  | nil =>
    cases ys with
    | nil => rfl
    | cons b bs => exact absurd ((h b).mpr List.mem_cons_self) (by simp)
  | cons a as ih =>
    cases ys with
    | nil => exact absurd ((h a).mp List.mem_cons_self) (by simp)
    | cons b bs =>
      obtain ⟨ha, has⟩ := List.pairwise_cons.mp hx
      obtain ⟨hb, hbs⟩ := List.pairwise_cons.mp hy
      have hab : a = b := by
        rcases List.mem_cons.mp ((h a).mp List.mem_cons_self) with e | m₁
        · exact e
        · rcases List.mem_cons.mp ((h b).mpr List.mem_cons_self) with e | m₂
          · exact e.symm
          · have := ha b m₂
            have := hb a m₁
            omega
      subst hab
      refine congrArg _ (ih has hbs fun c => ⟨fun hc => ?_, fun hc => ?_⟩)
      · rcases List.mem_cons.mp ((h c).mp (List.mem_cons_of_mem _ hc)) with rfl | m
        · exact absurd (ha c hc) (Nat.lt_irrefl _)
        · exact m
      · rcases List.mem_cons.mp ((h c).mpr (List.mem_cons_of_mem _ hc)) with rfl | m
        · exact absurd (hb c hc) (Nat.lt_irrefl _)
        · exact m

end MulticastTunnel.Ordered
