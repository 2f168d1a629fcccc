/-!
# Tables

Entries under distinct keys, in the order in which the keys came.
-/

namespace MulticastTunnel.Keyed

/-- Entries under distinct keys, the latest key last. -/
structure Table (κ ν : Type) where
  toList : List (κ × ν)
  nodup : (toList.map (·.1)).Nodup

namespace Table

variable {κ ν : Type} [DecidableEq κ]

instance [DecidableEq ν] : DecidableEq (Table κ ν) := fun s t =>
  if h : s.toList = t.toList then
    .isTrue (by cases s; cases t; cases h; rfl)
  else .isFalse fun e => h (congrArg toList e)

instance : EmptyCollection (Table κ ν) := ⟨[], List.nodup_nil⟩

instance : Inhabited (Table κ ν) := ⟨∅⟩

omit [DecidableEq κ] in
def isEmpty (t : Table κ ν) : Bool := t.toList.isEmpty

omit [DecidableEq κ] in
def size (t : Table κ ν) : Nat := t.toList.length

omit [DecidableEq κ] in
def keys (t : Table κ ν) : List κ := t.toList.map (·.1)

def get? (t : Table κ ν) (k : κ) : Option ν :=
  (t.toList.find? fun e => e.1 = k).map (·.2)

def contains (t : Table κ ν) (k : κ) : Bool := (t.get? k).isSome

/-- The entries with `v` under `k`, in the place of an older one if any. -/
def put (k : κ) (v : ν) : List (κ × ν) → List (κ × ν)
  | [] => [(k, v)]
  | e :: es => if e.1 = k then (k, v) :: es else e :: put k v es

theorem mem_keys_put {k l : κ} {v : ν} {es : List (κ × ν)} :
    l ∈ (put k v es).map (·.1) ↔ l = k ∨ l ∈ es.map (·.1) := by
  induction es with
  | nil => simp [put]
  | cons e es ih =>
    simp only [put]
    split
    · next h => subst h; simp
    · simp only [List.map_cons, List.mem_cons, ih]; grind

theorem nodup_put (k : κ) (v : ν) {es : List (κ × ν)} (h : (es.map (·.1)).Nodup) :
    ((put k v es).map (·.1)).Nodup := by
  induction es with
  | nil => simp [put]
  | cons e es ih =>
    simp only [List.map_cons, List.nodup_cons] at h
    simp only [put]
    split
    · next he => subst he; simpa using h
    · next he =>
      simp only [List.map_cons, List.nodup_cons]
      exact ⟨fun hm => (mem_keys_put.mp hm).elim he h.1, ih h.2⟩

def insert (t : Table κ ν) (k : κ) (v : ν) : Table κ ν :=
  ⟨put k v t.toList, nodup_put k v t.nodup⟩

omit [DecidableEq κ] in
def filter (p : κ → ν → Bool) (t : Table κ ν) : Table κ ν :=
  ⟨t.toList.filter fun e => p e.1 e.2, t.nodup.sublist (List.filter_sublist.map _)⟩

def erase (t : Table κ ν) (k : κ) : Table κ ν := t.filter fun l _ => l ≠ k

@[simp] theorem get?_empty (k : κ) : (∅ : Table κ ν).get? k = none := rfl

theorem get?_insert (t : Table κ ν) (k l : κ) (v : ν) :
    (t.insert k v).get? l = if l = k then some v else t.get? l := by
  cases t with | mk es h =>
  simp only [get?, insert]
  clear h
  induction es with
  | nil => by_cases hl : k = l <;> simp [put, hl, eq_comm]
  | cons e es ih =>
    simp only [put]
    split
    · next he =>
      subst he
      by_cases hl : e.1 = l
      · simp [hl]
      · simp [hl, Ne.symm hl]
    · next he =>
      by_cases hl : e.1 = l
      · subst hl; simp [he]
      · simpa [List.find?_cons, hl] using ih

theorem get?_erase (t : Table κ ν) (k l : κ) :
    (t.erase k).get? l = if l = k then none else t.get? l := by
  cases t with | mk es h =>
  simp only [get?, erase, filter]
  clear h
  have none_of_eq : ∀ xs : List (κ × ν),
      (xs.filter fun e => e.1 ≠ k).find? (fun e => e.1 = k) = none := by simp
  induction es with
  | nil => simp
  | cons e es ih =>
    by_cases hl : l = k
    · subst hl
      rw [if_pos rfl, none_of_eq]
      rfl
    · rw [if_neg hl] at ih ⊢
      by_cases he : e.1 = k
      · have hne : ¬ e.1 = l := fun h => hl (h.symm.trans he)
        rw [List.filter_cons_of_neg (by simp [he]), List.find?_cons_of_neg (by simp [hne])]
        exact ih
      · by_cases hel : e.1 = l
        · rw [List.filter_cons_of_pos (by simp [he]), List.find?_cons_of_pos (by simp [hel]),
            List.find?_cons_of_pos (by simp [hel])]
        · rw [List.filter_cons_of_pos (by simp [he]), List.find?_cons_of_neg (by simp [hel]),
            List.find?_cons_of_neg (by simp [hel])]
          exact ih

end Table

end MulticastTunnel.Keyed
