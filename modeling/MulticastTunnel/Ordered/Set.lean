import MulticastTunnel.Ordered.Insertion

/-!
# Ordered sets

A finite set kept as the ascending list of its elements. Membership decides
equality, so the order in which elements came is forgotten.
-/

namespace MulticastTunnel.Ordered

/-- A finite set, listed in ascending order. -/
structure OrderedSet (α : Type) [Ranked α] where
  toList : List α
  ascending : Ascending rank toList

namespace OrderedSet

variable {α : Type} [Ranked α]

instance [DecidableEq α] : DecidableEq (OrderedSet α) := fun s t =>
  if h : s.toList = t.toList then
    .isTrue (by cases s; cases t; cases h; rfl)
  else .isFalse fun e => h (congrArg toList e)

def empty : OrderedSet α := ⟨[], List.Pairwise.nil⟩

instance : EmptyCollection (OrderedSet α) := ⟨empty⟩

instance : Inhabited (OrderedSet α) := ⟨empty⟩

instance : Membership α (OrderedSet α) := ⟨fun s a => a ∈ s.toList⟩

instance [DecidableEq α] (a : α) (s : OrderedSet α) : Decidable (a ∈ s) :=
  inferInstanceAs (Decidable (a ∈ s.toList))

def isEmpty (s : OrderedSet α) : Bool := s.toList.isEmpty

def size (s : OrderedSet α) : Nat := s.toList.length

/-- The set itself, unless it is empty. -/
def nonempty? (s : OrderedSet α) : Option (OrderedSet α) := if s.isEmpty then none else some s

def insert (s : OrderedSet α) (a : α) : OrderedSet α :=
  ⟨insertBy order a s.toList, ascending_insertBy Ranked.order_eq a s.ascending⟩

def filter (p : α → Bool) (s : OrderedSet α) : OrderedSet α :=
  ⟨s.toList.filter p, s.ascending.filter p⟩

def erase [DecidableEq α] (s : OrderedSet α) (a : α) : OrderedSet α := s.filter (· ≠ a)

def ofList (xs : List α) : OrderedSet α := xs.foldl insert ∅

def union (s t : OrderedSet α) : OrderedSet α := t.toList.foldl insert s

def inter [DecidableEq α] (s t : OrderedSet α) : OrderedSet α := s.filter (· ∈ t)

def diff [DecidableEq α] (s t : OrderedSet α) : OrderedSet α := s.filter (· ∉ t)

theorem ext {s t : OrderedSet α} (h : ∀ a, a ∈ s ↔ a ∈ t) : s = t := by
  cases s with | mk xs hx =>
  cases t with | mk ys hy =>
  cases hx.eq_of_mem_iff hy h
  rfl

@[simp] theorem not_mem_empty (a : α) : a ∉ (∅ : OrderedSet α) := List.not_mem_nil

@[simp] theorem mem_insert {s : OrderedSet α} {a b : α} : b ∈ s.insert a ↔ b = a ∨ b ∈ s := by
  refine (mem_insertBy_iff Ranked.order_eq s.ascending).trans ⟨?_, ?_⟩
  · rintro (h | ⟨h, -⟩)
    · exact .inl h
    · exact .inr h
  · rintro (h | h)
    · exact .inl h
    · by_cases hk : rank b = rank a
      · exact .inl (Ranked.rank_injective _ _ hk)
      · exact .inr ⟨h, hk⟩

@[simp] theorem mem_filter {s : OrderedSet α} {p : α → Bool} {a : α} :
    a ∈ s.filter p ↔ a ∈ s ∧ p a = true := List.mem_filter

@[simp] theorem mem_erase [DecidableEq α] {s : OrderedSet α} {a b : α} :
    b ∈ s.erase a ↔ b ∈ s ∧ b ≠ a := by simp [erase]

theorem mem_foldl_insert (xs : List α) {s : OrderedSet α} {a : α} :
    a ∈ xs.foldl insert s ↔ a ∈ s ∨ a ∈ xs := by
  induction xs generalizing s with
  | nil => simp
  | cons x xs ih => simp only [List.foldl_cons, ih, mem_insert, List.mem_cons]; grind

@[simp] theorem mem_ofList {xs : List α} {a : α} : a ∈ ofList xs ↔ a ∈ xs :=
  (mem_foldl_insert xs).trans (or_iff_right (not_mem_empty a))

@[simp] theorem mem_union {s t : OrderedSet α} {a : α} : a ∈ s.union t ↔ a ∈ s ∨ a ∈ t :=
  mem_foldl_insert t.toList

@[simp] theorem mem_inter [DecidableEq α] {s t : OrderedSet α} {a : α} :
    a ∈ s.inter t ↔ a ∈ s ∧ a ∈ t := by simp [inter]

@[simp] theorem mem_diff [DecidableEq α] {s t : OrderedSet α} {a : α} :
    a ∈ s.diff t ↔ a ∈ s ∧ a ∉ t := by simp [diff]

end OrderedSet

end MulticastTunnel.Ordered
