import MulticastTunnel.Ordered.Insertion

/-!
# Ordered maps

A finite map kept as the list of its entries in ascending order of the keys.
The values found under each key decide equality.
-/

namespace MulticastTunnel.Ordered

/-- A finite map, listed in ascending order of its keys. -/
structure OrderedMap (κ ν : Type) [Ranked κ] where
  toList : List (κ × ν)
  ascending : Ascending (fun e => rank e.1) toList

namespace OrderedMap

variable {κ ν : Type} [Ranked κ]

def empty : OrderedMap κ ν := ⟨[], List.Pairwise.nil⟩

instance : EmptyCollection (OrderedMap κ ν) := ⟨empty⟩

instance : Inhabited (OrderedMap κ ν) := ⟨empty⟩

instance [DecidableEq κ] [DecidableEq ν] : DecidableEq (OrderedMap κ ν) := fun m n =>
  if h : m.toList = n.toList then
    .isTrue (by cases m; cases n; cases h; rfl)
  else .isFalse fun e => h (congrArg toList e)

def isEmpty (m : OrderedMap κ ν) : Bool := m.toList.isEmpty

def size (m : OrderedMap κ ν) : Nat := m.toList.length

/-- The map itself, unless it is empty. -/
def nonempty? (m : OrderedMap κ ν) : Option (OrderedMap κ ν) := if m.isEmpty then none else some m

def keys (m : OrderedMap κ ν) : List κ := m.toList.map (·.1)

def values (m : OrderedMap κ ν) : List ν := m.toList.map (·.2)

def get? (m : OrderedMap κ ν) (k : κ) : Option ν :=
  (m.toList.find? fun e => order e.1 k = .eq).map (·.2)

def contains (m : OrderedMap κ ν) (k : κ) : Bool := (m.get? k).isSome

/-- Entries are in order as their keys are. -/
theorem follows_key : Follows (fun e f : κ × ν => order e.1 f.1) fun e => rank e.1 :=
  fun e f => Ranked.order_eq e.1 f.1

def insert (m : OrderedMap κ ν) (k : κ) (v : ν) : OrderedMap κ ν :=
  ⟨insertBy (fun e f => order e.1 f.1) (k, v) m.toList,
    ascending_insertBy follows_key _ m.ascending⟩

def filter (p : κ → ν → Bool) (m : OrderedMap κ ν) : OrderedMap κ ν :=
  ⟨m.toList.filter fun e => p e.1 e.2, m.ascending.filter _⟩

def erase (m : OrderedMap κ ν) (k : κ) : OrderedMap κ ν := m.filter fun l _ => order l k ≠ .eq

/-- The map whose value under `k` is `v`, or which has none there. -/
def set (m : OrderedMap κ ν) (k : κ) : Option ν → OrderedMap κ ν
  | some v => m.insert k v
  | none => m.erase k

theorem get?_eq_some_iff {m : OrderedMap κ ν} {k : κ} {v : ν} :
    m.get? k = some v ↔ (k, v) ∈ m.toList := by
  cases m with | mk xs hx =>
  simp only [get?]
  induction xs with
  | nil => simp
  | cons e es ih =>
    obtain ⟨he, hes⟩ := List.pairwise_cons.mp hx
    obtain ⟨l, w⟩ := e
    by_cases hk : l = k
    · subst hk
      have hnot : ∀ w', (l, w') ∉ es := fun w' hm => Nat.lt_irrefl _ (he (l, w') hm)
      have hl : order l l = .eq := order_eq_eq_iff.mpr rfl
      simp [hl, eq_comm, hnot]
    · have hl : order l k ≠ .eq := fun e => hk (order_eq_eq_iff.mp e)
      simp only [List.find?_cons, hl, decide_false, List.mem_cons, Prod.mk.injEq]
      rw [ih hes]
      grind

theorem ext {m n : OrderedMap κ ν} (h : ∀ k, m.get? k = n.get? k) : m = n := by
  have hl : m.toList = n.toList := m.ascending.eq_of_mem_iff n.ascending fun e => by
    rw [← get?_eq_some_iff (m := m), ← get?_eq_some_iff (m := n), h]
  cases m; cases n; cases hl; rfl

@[simp] theorem get?_empty (k : κ) : (∅ : OrderedMap κ ν).get? k = none := rfl

theorem get?_insert [DecidableEq κ] (m : OrderedMap κ ν) (k l : κ) (v : ν) :
    (m.insert k v).get? l = if l = k then some v else m.get? l := by
  apply Option.ext
  intro w
  rw [get?_eq_some_iff, show ((l, w) ∈ (m.insert k v).toList ↔ _) from
    mem_insertBy_iff follows_key m.ascending]
  split
  · next h => subst h; simp [eq_comm]
  · next h =>
    rw [get?_eq_some_iff]
    have : rank l ≠ rank k := fun e => h (Ranked.rank_injective _ _ e)
    simp [h, this]

theorem get?_erase [DecidableEq κ] (m : OrderedMap κ ν) (k l : κ) :
    (m.erase k).get? l = if l = k then none else m.get? l := by
  apply Option.ext
  intro w
  rw [get?_eq_some_iff, show ((l, w) ∈ (m.erase k).toList ↔ _) from List.mem_filter]
  split
  · next h => subst h; simp [order_eq_eq_iff]
  · next h =>
    rw [get?_eq_some_iff]
    simp [order_eq_eq_iff, h]

theorem get?_set [DecidableEq κ] (m : OrderedMap κ ν) (k l : κ) (v : Option ν) :
    (m.set k v).get? l = if l = k then v else m.get? l := by
  cases v with
  | none => exact get?_erase m k l
  | some v => exact get?_insert m k l v

end OrderedMap

end MulticastTunnel.Ordered
