/-!
Finite maps as lists of pairs with distinct keys, oldest key first.

`find?` is the view: `find?_insert` and `find?_erase` say what each change does to it, and
`size_eq_length_keys` with `mem_keys_iff` say what `size` counts.
-/
namespace Docroot

/-- A finite map. The pairs stand in the order in which their keys were first stored. -/
structure Table (κ α : Type) where
  pairs : List (κ × α)
  nodup : (pairs.map Prod.fst).Nodup

namespace Table

variable {κ α : Type}

/-- The map without keys. -/
def empty : Table κ α := ⟨[], List.nodup_nil⟩

instance : Inhabited (Table κ α) := ⟨empty⟩

def keys (t : Table κ α) : List κ := t.pairs.map Prod.fst

def size (t : Table κ α) : Nat := t.pairs.length

def isEmpty (t : Table κ α) : Bool := t.pairs.isEmpty

theorem size_eq_length_keys (t : Table κ α) : t.size = t.keys.length := by
  simp [size, keys]

variable [DecidableEq κ]

/-- The value in the first pair with key `k`. -/
def lookup (k : κ) : List (κ × α) → Option α
  | [] => none
  | (k', v) :: rest => if k' = k then some v else lookup k rest

/-- Writes `v` into the pair with key `k`, or adds a pair at the end. -/
def store (k : κ) (v : α) : List (κ × α) → List (κ × α)
  | [] => [(k, v)]
  | (k', v') :: rest => if k' = k then (k, v) :: rest else (k', v') :: store k v rest

theorem mem_keys_store {k x : κ} {v : α} {l : List (κ × α)} :
    x ∈ (store k v l).map Prod.fst ↔ x = k ∨ x ∈ l.map Prod.fst := by
  induction l with
  | nil => simp [store]
  | cons p rest ih =>
    obtain ⟨k', v'⟩ := p
    by_cases h : k' = k
    · subst h; simp [store]
    · simp only [store, h, if_false, List.map_cons, List.mem_cons, ih]
      constructor <;> rintro (h | h | h) <;> simp [h]

theorem nodup_keys_store {k : κ} {v : α} {l : List (κ × α)} (h : (l.map Prod.fst).Nodup) :
    ((store k v l).map Prod.fst).Nodup := by
  induction l with
  | nil => simp [store]
  | cons p rest ih =>
    obtain ⟨k', v'⟩ := p
    obtain ⟨fresh, distinct⟩ := List.nodup_cons.mp h
    by_cases same : k' = k
    · subst same
      simpa [store] using ⟨by simpa using fresh, distinct⟩
    · simp only [store, same, if_false, List.map_cons]
      refine List.nodup_cons.mpr ⟨?_, ih distinct⟩
      rw [mem_keys_store]
      rintro (h | h)
      · exact same h
      · exact fresh h

def find? (t : Table κ α) (k : κ) : Option α := lookup k t.pairs

def contains (t : Table κ α) (k : κ) : Bool := (t.find? k).isSome

/-- Binds `k` to `v`. A key that is already there keeps its place. -/
def insert (t : Table κ α) (k : κ) (v : α) : Table κ α :=
  ⟨store k v t.pairs, nodup_keys_store t.nodup⟩

/-- Unbinds `k`. -/
def erase (t : Table κ α) (k : κ) : Table κ α :=
  ⟨t.pairs.filter (fun p => p.1 ≠ k), (List.filter_sublist.map Prod.fst).nodup t.nodup⟩

/-- Keeps the pairs whose key passes the test. -/
def filterKeys (t : Table κ α) (keep : κ → Bool) : Table κ α :=
  ⟨t.pairs.filter (fun p => keep p.1), (List.filter_sublist.map Prod.fst).nodup t.nodup⟩

@[simp] theorem find?_empty (k : κ) : (empty : Table κ α).find? k = none := rfl

theorem lookup_store (k k' : κ) (v : α) (l : List (κ × α)) :
    lookup k' (store k v l) = if k = k' then some v else lookup k' l := by
  induction l with
  | nil => simp [store, lookup]
  | cons p rest ih =>
    obtain ⟨k₀, v₀⟩ := p
    by_cases h : k₀ = k
    · subst h; simp [store, lookup]; split <;> rfl
    · by_cases h' : k₀ = k'
      · subst h'; simp [store, lookup, h, Ne.symm h]
      · simp [store, lookup, h, h', ih]

/-- A new key goes behind all others. -/
theorem store_new {k : κ} {v : α} {l : List (κ × α)} (new : lookup k l = none) :
    store k v l = l ++ [(k, v)] := by
  induction l with
  | nil => rfl
  | cons p rest ih =>
    obtain ⟨k', v'⟩ := p
    by_cases same : k' = k
    · simp [lookup, same] at new
    · simp only [lookup, same, if_false] at new
      simp [store, same, ih new]

theorem find?_insert (t : Table κ α) (k k' : κ) (v : α) :
    (t.insert k v).find? k' = if k = k' then some v else t.find? k' :=
  lookup_store k k' v t.pairs

@[simp] theorem find?_insert_self (t : Table κ α) (k : κ) (v : α) :
    (t.insert k v).find? k = some v := by simp [find?_insert]

theorem lookup_filter (keep : κ → Bool) (k : κ) (l : List (κ × α)) :
    lookup k (l.filter (fun p => keep p.1)) = if keep k then lookup k l else none := by
  induction l with
  | nil => simp [lookup]
  | cons p rest ih =>
    obtain ⟨k₀, v₀⟩ := p
    by_cases h : k₀ = k
    · subst h; cases hk : keep k₀ <;> simp [lookup, hk, ih]
    · cases hk : keep k₀ <;> simp [lookup, hk, h, ih]

theorem find?_erase (t : Table κ α) (k k' : κ) :
    (t.erase k).find? k' = if k = k' then none else t.find? k' := by
  have h := lookup_filter (fun x => decide (x ≠ k)) k' t.pairs
  by_cases same : k = k'
  · subst same; simpa [find?, erase] using h
  · simpa [find?, erase, same, Ne.symm same] using h

@[simp] theorem find?_erase_self (t : Table κ α) (k : κ) : (t.erase k).find? k = none := by
  simp [find?_erase]

theorem lookup_eq_none_iff (k : κ) (l : List (κ × α)) :
    lookup k l = none ↔ k ∉ l.map Prod.fst := by
  induction l with
  | nil => simp [lookup]
  | cons p rest ih =>
    obtain ⟨k', v'⟩ := p
    by_cases h : k' = k
    · subst h; simp [lookup]
    · simp only [lookup, h, if_false, List.map_cons, List.mem_cons, ih]
      simp [Ne.symm h]

theorem mem_of_lookup {k : κ} {v : α} {l : List (κ × α)} (there : lookup k l = some v) :
    (k, v) ∈ l := by
  induction l with
  | nil => cases there
  | cons p rest ih =>
    obtain ⟨k', v'⟩ := p
    by_cases here : k' = k
    · simp only [lookup, here, if_true, Option.some.injEq] at there
      simp [here, there]
    · simp only [lookup, here, if_false] at there
      exact List.mem_cons_of_mem _ (ih there)

theorem mem_keys_iff (t : Table κ α) (k : κ) : k ∈ t.keys ↔ ∃ v, t.find? k = some v := by
  rw [← Option.ne_none_iff_exists', ne_eq, find?, lookup_eq_none_iff]
  simp [keys]

end Table

end Docroot
