import Mathlib
import Docroot.Proofs.Entries
import Docroot.Proofs.Registry

/-!
Names and numbers of one registry.

A registry numbers its names in the order in which they were registered, the standard names first.
A name keeps its number for ever, and every instance of it that was handed out tells that number.
What a look-up gives is the instance under the key: the first one, until the name is registered
anew, and then the one made by the last registration.
-/

namespace Docroot

namespace Table

variable {κ α β : Type} [DecidableEq κ]

/-- A key that is there keeps its place, and what the new value has in common with the old one. -/
theorem map_store {f : α → β} {k : κ} {v old : α} {l : List (κ × α)}
    (there : lookup k l = some old) (same : f v = f old) :
    (store k v l).map (fun p => f p.2) = l.map fun p => f p.2 := by
  induction l with
  | nil => cases there
  | cons p rest ih =>
    obtain ⟨k', v'⟩ := p
    by_cases here : k' = k
    · simp only [lookup, here, if_true, Option.some.injEq] at there
      simp [store, here, same, there]
    · simp only [lookup, here, if_false] at there
      simp [store, here, ih there]

/-- Keys that are new and distinct are stored one after the other. -/
theorem pairs_foldl_insert (key : β → κ) (value : β → α) (l : List β) (t : Table κ α)
    (distinct : (l.map key).Nodup) (new : ∀ b ∈ l, t.find? (key b) = none) :
    (l.foldl (fun t b => t.insert (key b) (value b)) t).pairs =
      t.pairs ++ l.map fun b => (key b, value b) := by
  induction l generalizing t with
  | nil => simp
  | cons b rest ih =>
    obtain ⟨fresh, distinct⟩ := List.nodup_cons.mp distinct
    have first : (t.insert (key b) (value b)).pairs = t.pairs ++ [(key b, value b)] :=
      store_new (new b List.mem_cons_self)
    have new' : ∀ c ∈ rest, (t.insert (key b) (value b)).find? (key c) = none := by
      intro c mem
      have other : key b ≠ key c := fun same => fresh (same ▸ List.mem_map_of_mem mem)
      rw [find?_insert, if_neg other]
      exact new c (List.mem_cons_of_mem _ mem)
    rw [List.foldl_cons, ih _ distinct new', first]
    simp

end Table

/-- What can be asked of a registry of names. -/
inductive NameCall where
  | get (name : String)
  | getOrCreate (name : String)
  | override (name : String) (replayable : Bool)
  | standard (n : StandardName)

namespace NameCall

/-- The name that a call is about. -/
def name : NameCall → String
  | get name | getOrCreate name | override name _ => name
  | standard n => n.text

/-- Whether a call looks up the name with the given key. -/
def seeks (key : String) : NameCall → Bool
  | get name | getOrCreate name => nameKey name = key
  | _ => false

/-- Whether a call registers the name with the given key anew. -/
def overrides (key : String) : NameCall → Bool
  | override name _ => nameKey name = key
  | _ => false

end NameCall

namespace NameRegistry

/-- The instance that a call hands out, if it does, and the registry after it. -/
def call (r : NameRegistry) : NameCall → Option HeaderName × NameRegistry
  | .get name => (r.get? name, r)
  | .getOrCreate name => let (n, r) := r.getOrCreate name; (some n, r)
  | .override name replayable => let (n, r) := r.override name replayable; (some n, r)
  | .standard n => (some (r.standard n), r)

def run (r : NameRegistry) : List NameCall → NameRegistry
  | [] => r
  | c :: rest => (r.call c).2.run rest

/-- What calls hand out, one after the other. -/
def answers (r : NameRegistry) : List NameCall → List (Option HeaderName)
  | [] => []
  | c :: rest => (r.call c).1 :: (r.call c).2.answers rest

variable {r : NameRegistry} {c : NameCall} {n : HeaderName} {key : String}

theorem run_append (r : NameRegistry) (l l' : List NameCall) :
    r.run (l ++ l') = (r.run l).run l' := by
  induction l generalizing r with
  | nil => rfl
  | cons c rest ih => exact ih _

/-! ## What one call does -/

/-- A new instance was put under its key. It has the number of the name, or the next one if the
name was not known. -/
structure Registers (r : NameRegistry) (n : HeaderName) (r' : NameRegistry) : Prop where
  id : r'.id = r.id
  names : r'.names = r.names.insert n.key n
  nextSerial : r'.nextSerial = r.nextSerial + 1
  registry : n.registry = r.id
  serial : n.serial = r.nextSerial
  key : n.key = nameKey n.text
  number :
    (∃ old, r.names.find? n.key = some old ∧ n.number = old.number ∧
      r'.nextNumber = r.nextNumber) ∨
    (r.names.find? n.key = none ∧ n.number = r.nextNumber ∧ r'.nextNumber = r.nextNumber + 1)

/-- A call hands out what is registered already, or it registers what it hands out. What is
registered is put aside only by a call that does so in as many words. -/
theorem call_cases (r : NameRegistry) (c : NameCall) :
    ((r.call c).2 = r ∧ (∀ key, c.overrides key = false) ∧ ∀ n, (r.call c).1 = some n →
      r.get? c.name = some n ∨ ∃ m, c = .standard m ∧ n = r.standard m) ∨
    ∃ n, (r.call c).1 = some n ∧ n.text = c.name ∧ r.Registers n (r.call c).2 ∧
      (r.names.find? n.key = none ∨ c.overrides n.key = true) := by
  cases c with
  | get name => exact .inl ⟨rfl, fun _ => rfl, fun n found => .inl found⟩
  | standard m =>
    left
    refine ⟨rfl, fun _ => rfl, ?_⟩
    rintro n handed
    exact .inr ⟨m, rfl, (Option.some.inj handed).symm⟩
  | getOrCreate name =>
    cases known : r.get? name with
    | some n =>
      left
      simp only [call, getOrCreate, known]
      exact ⟨trivial, fun _ => rfl, fun m same => .inl (known.trans same)⟩
    | none =>
      right
      simp only [call, getOrCreate, known]
      exact ⟨_, rfl, rfl, ⟨rfl, rfl, rfl, rfl, rfl, rfl, .inr ⟨known, rfl, rfl⟩⟩, .inl known⟩
  | override name replayable =>
    right
    simp only [call, override]
    refine ⟨_, rfl, rfl, ⟨rfl, rfl, rfl, rfl, rfl, rfl, ?_⟩, .inr ?_⟩
    · cases known : r.get? name with
      | some old => exact .inl ⟨old, known, rfl, rfl⟩
      | none => exact .inr ⟨known, rfl, rfl⟩
    · simp [NameCall.overrides]

/-! ## Numbers -/

/-- The name with the given key has the number `i`. -/
def Numbered (r : NameRegistry) (key : String) (i : UInt32) : Prop :=
  ∃ n, r.names.find? key = some n ∧ n.number = i

/-- An instance that the registry handed out. -/
structure Issued (r : NameRegistry) (n : HeaderName) : Prop where
  registry : n.registry = r.id
  serial : n.serial < r.nextSerial
  key : n.key = nameKey n.text
  number : r.Numbered n.key n.number

/-- What holds of a registry whatever was asked of it. -/
structure Sound (r : NameRegistry) : Prop where
  keys : ∀ key n, r.names.find? key = some n → n.key = key ∧ r.Issued n
  numbers : r.names.pairs.map (fun p => p.2.number) = (List.range r.size).map UInt32.ofNat
  next : r.nextNumber = .ofNat r.size
  standard : ∀ m, r.Issued (r.standard m)

namespace Registers

variable {r' : NameRegistry}

theorem find? (h : r.Registers n r') (key : String) :
    r'.names.find? key = if n.key = key then some n else r.names.find? key := by
  rw [h.names, Table.find?_insert]

theorem numbered (h : r.Registers n r') {i : UInt32} (before : r.Numbered key i) :
    r'.Numbered key i := by
  obtain ⟨m, there, rfl⟩ := before
  by_cases same : n.key = key
  · refine ⟨n, by rw [h.find?, if_pos same], ?_⟩
    rcases h.number with ⟨old, known, number, _⟩ | ⟨unknown, _⟩
    · rw [same, there] at known
      rw [number, Option.some.inj known]
    · rw [same, there] at unknown
      cases unknown
  · exact ⟨m, by rw [h.find?, if_neg same, there], rfl⟩

theorem issued (h : r.Registers n r') {m : HeaderName} (before : r.Issued m) : r'.Issued m where
  registry := before.registry.trans h.id.symm
  serial := by
    have := before.serial
    have := h.nextSerial
    omega
  key := before.key
  number := h.numbered before.number

theorem issued_self (h : r.Registers n r') : r'.Issued n where
  registry := h.registry.trans h.id.symm
  serial := by
    have := h.serial
    have := h.nextSerial
    omega
  key := h.key
  number := ⟨n, by rw [h.find?, if_pos rfl], rfl⟩

/-- The names are numbered in their order, also after one more. -/
theorem numbers (h : r.Registers n r') (sound : r.Sound) :
    r'.names.pairs.map (fun p => p.2.number) = (List.range r'.size).map UInt32.ofNat ∧
    r'.nextNumber = .ofNat r'.size := by
  have stored : r'.names.pairs = Table.store n.key n r.names.pairs := by
    rw [h.names]
    rfl
  rcases h.number with ⟨old, known, number, next⟩ | ⟨unknown, number, next⟩
  · have all : r'.names.pairs.map (fun p => p.2.number) =
        r.names.pairs.map fun p => p.2.number := by
      rw [stored]
      exact Table.map_store known number
    have size : r'.size = r.size := by
      simpa [NameRegistry.size, Table.size] using congrArg List.length all
    rw [all, size, next]
    exact ⟨sound.numbers, sound.next⟩
  · have all : r'.names.pairs = r.names.pairs ++ [(n.key, n)] := by
      rw [stored, Table.store_new unknown]
    have size : r'.size = r.size + 1 := by
      simpa [NameRegistry.size, Table.size] using congrArg List.length all
    constructor
    · rw [all, List.map_append, sound.numbers, size, List.range_succ, List.map_append]
      simp [number, sound.next]
    · rw [next, sound.next, size, UInt32.ofNat_add]
      rfl

theorem sound (h : r.Registers n r') (sound : r.Sound) : r'.Sound where
  keys := by
    intro key m there
    rw [h.find?] at there
    split at there
    · rename_i same
      cases there
      exact ⟨same, h.issued_self⟩
    · obtain ⟨own, issued⟩ := sound.keys key m there
      exact ⟨own, h.issued issued⟩
  numbers := (h.numbers sound).1
  next := (h.numbers sound).2
  standard := by
    intro m
    have same : r'.standard m = r.standard m := by
      rw [NameRegistry.standard, NameRegistry.standard, h.id]
    rw [same]
    exact h.issued (sound.standard m)

end Registers

/-! ## Runs -/

theorem pairs_create (id : Nat) (debug : Bool) : (create id debug).names.pairs =
    StandardName.all.map fun m => (nameKey m.text, HeaderName.standard id m) :=
  Table.pairs_foldl_insert (fun m : StandardName => nameKey m.text) (HeaderName.standard id) _ _
    StandardName.nodup_keys fun _ _ => rfl

theorem find?_create (id : Nat) (debug : Bool) (m : StandardName) :
    (create id debug).names.find? (nameKey m.text) = some (.standard id m) := by
  refine Table.lookup_of_mem (create id debug).names.nodup ?_
  rw [pairs_create]
  exact List.mem_map_of_mem m.mem_all

theorem sound_create (id : Nat) (debug : Bool) : (create id debug).Sound := by
  have issued (m : StandardName) : (create id debug).Issued (.standard id m) := by
    refine ⟨rfl, ?_, rfl, _, find?_create id debug m, rfl⟩
    obtain ⟨inside, _⟩ := List.getElem?_eq_some_iff.mp (StandardName.getElem?_all m)
    exact inside
  have size : (create id debug).size = StandardName.all.length := by
    rw [NameRegistry.size, Table.size, pairs_create, List.length_map]
  refine ⟨?_, ?_, ?_, issued⟩
  · intro key n there
    have mem := Table.mem_of_lookup there
    rw [pairs_create] at mem
    obtain ⟨m, _, same⟩ := List.mem_map.mp mem
    obtain ⟨rfl, rfl⟩ := Prod.mk.inj same
    exact ⟨rfl, issued m⟩
  · have numbers :
        StandardName.all.map StandardName.number = List.range StandardName.all.length := by
      decide
    rw [pairs_create, size, ← numbers, List.map_map, List.map_map]
    rfl
  · rw [size]
    rfl

theorem Sound.call (sound : r.Sound) (c : NameCall) : (r.call c).2.Sound := by
  rcases r.call_cases c with ⟨same, _⟩ | ⟨n, _, _, registers, _⟩
  · rw [same]
    exact sound
  · exact registers.sound sound

theorem Issued.call (issued : r.Issued n) (c : NameCall) : (r.call c).2.Issued n := by
  rcases r.call_cases c with ⟨same, _⟩ | ⟨n, _, _, registers, _⟩
  · rw [same]
    exact issued
  · exact registers.issued issued

/-- What a call hands out is an instance of its name. -/
theorem Sound.issued (sound : r.Sound) (handed : (r.call c).1 = some n) :
    (r.call c).2.Issued n := by
  rcases r.call_cases c with ⟨same, _, known⟩ | ⟨m, handed', _, registers, _⟩
  · rw [same]
    rcases known n handed with there | ⟨m, _, rfl⟩
    · exact (sound.keys _ n there).2
    · exact sound.standard m
  · rw [handed] at handed'
    cases handed'
    exact registers.issued_self

theorem Sound.run (sound : r.Sound) (calls : List NameCall) : (r.run calls).Sound := by
  induction calls generalizing r with
  | nil => exact sound
  | cons c rest ih => exact ih (sound.call c)

theorem Issued.run (issued : r.Issued n) (calls : List NameCall) : (r.run calls).Issued n := by
  induction calls generalizing r with
  | nil => exact issued
  | cons c rest ih => exact ih (issued.call c)

/-- An instance that was handed out at any time tells the number of its name. -/
theorem Sound.issued_of_mem (sound : r.Sound) {calls : List NameCall}
    (mem : some n ∈ r.answers calls) : (r.run calls).Issued n := by
  induction calls generalizing r with
  | nil => cases mem
  | cons c rest ih =>
    rcases List.mem_cons.mp mem with first | later
    · exact (sound.issued first.symm).run rest
    · exact ih (sound.call c) later

/-- A registered name stays registered. -/
theorem known_run (calls : List NameCall) (known : (r.names.find? key).isSome = true) :
    ((r.run calls).names.find? key).isSome = true := by
  induction calls generalizing r with
  | nil => exact known
  | cons c rest ih =>
    refine ih ?_
    rcases r.call_cases c with ⟨same, _⟩ | ⟨n, _, _, registers, _⟩
    · rw [same]
      exact known
    · rw [registers.find?]
      split
      · rfl
      · exact known

/-- The names in the registry are those that it started with and those of the calls. -/
theorem mem_keys_run {calls : List NameCall} (mem : key ∈ (r.run calls).names.keys) :
    key ∈ r.names.keys ∨ ∃ c ∈ calls, key = nameKey c.name := by
  induction calls generalizing r with
  | nil => exact .inl mem
  | cons c rest ih =>
    rcases ih mem with before | ⟨d, later, own⟩
    · rcases r.call_cases c with ⟨same, _⟩ | ⟨n, _, text, registers, _⟩
      · rw [same] at before
        exact .inl before
      · obtain ⟨m, there⟩ := (Table.mem_keys_iff _ _).mp before
        rw [registers.find?] at there
        split at there
        · rename_i own
          refine .inr ⟨c, List.mem_cons_self, ?_⟩
          rw [← own, registers.key, text]
        · exact .inl ((Table.mem_keys_iff _ _).mpr ⟨m, there⟩)
    · exact .inr ⟨d, List.mem_cons_of_mem _ later, own⟩

/-- The keys of the standard names and of the names that calls are about. -/
def keysOf (calls : List NameCall) : List String :=
  (StandardName.all.map StandardName.text ++ calls.map NameCall.name).map nameKey

/-- No more names are registered than were asked for. -/
theorem size_run_le (id : Nat) (debug : Bool) (calls : List NameCall) :
    ((create id debug).run calls).size ≤ (keysOf calls).dedup.length := by
  rw [NameRegistry.size, Table.size_eq_length_keys]
  refine List.Nodup.length_le_of_subset ((create id debug).run calls).names.nodup ?_
  intro key mem
  rw [List.mem_dedup, keysOf, List.map_append, List.mem_append]
  rcases mem_keys_run mem with standard | ⟨c, asked, rfl⟩
  · left
    rw [Table.keys, pairs_create, List.map_map] at standard
    rw [List.map_map]
    exact standard
  · right
    rw [List.map_map]
    exact List.mem_map_of_mem asked

/-! ## One number for each name -/

theorem toNat_ofNat_of_lt {i size : Nat} (inside : i < size) (few : size ≤ 2 ^ 32) :
    (UInt32.ofNat i).toNat = i := by
  rw [UInt32.toNat_ofNat']
  exact Nat.mod_eq_of_lt (by omega)

namespace Sound

variable (sound : r.Sound) (few : r.size ≤ 2 ^ 32)

include sound few

theorem nodup_numbers : (r.names.pairs.map fun p => p.2.number).Nodup := by
  rw [sound.numbers]
  refine List.Nodup.map_on ?_ List.nodup_range
  intro i first j second same
  have same := congrArg UInt32.toNat same
  rwa [toNat_ofNat_of_lt (List.mem_range.mp first) few,
    toNat_ofNat_of_lt (List.mem_range.mp second) few] at same

/-- No two names have the same number. -/
theorem key_of_number {key' : String} {i : UInt32} (first : r.Numbered key i)
    (second : r.Numbered key' i) : key = key' := by
  obtain ⟨n, there, number⟩ := first
  obtain ⟨n', there', number'⟩ := second
  have same : (key, n) = (key', n') :=
    List.inj_on_of_nodup_map (sound.nodup_numbers few) (Table.mem_of_lookup there)
      (Table.mem_of_lookup there') (number.trans number'.symm)
  exact congrArg Prod.fst same

/-- The numbers in use are those below the number of names. -/
theorem number_iff (i : Nat) :
    (∃ name n, r.get? name = some n ∧ n.number.toNat = i) ↔ i < r.size := by
  constructor
  · rintro ⟨name, n, there, rfl⟩
    have mem : n.number ∈ r.names.pairs.map fun p => p.2.number :=
      List.mem_map.mpr ⟨_, Table.mem_of_lookup there, rfl⟩
    rw [sound.numbers] at mem
    obtain ⟨j, below, number⟩ := List.mem_map.mp mem
    have inside := List.mem_range.mp below
    rw [← number, toNat_ofNat_of_lt inside few]
    exact inside
  · intro inside
    have mem : UInt32.ofNat i ∈ r.names.pairs.map fun p => p.2.number := by
      rw [sound.numbers]
      exact List.mem_map_of_mem (List.mem_range.mpr inside)
    obtain ⟨⟨key, n⟩, stored, number⟩ := List.mem_map.mp mem
    have there := Table.lookup_of_mem r.names.nodup stored
    obtain ⟨own, issued⟩ := sound.keys key n there
    refine ⟨n.text, n, ?_, ?_⟩
    · rw [get?, ← issued.key, own]
      exact there
    · rw [number, toNat_ofNat_of_lt inside few]

/-- Instances that were handed out have the same number exactly if their names agree. -/
theorem number_eq_iff {a b : HeaderName} (first : r.Issued a) (second : r.Issued b) :
    a.number = b.number ↔ nameKey a.text = nameKey b.text := by
  rw [← first.key, ← second.key]
  constructor
  · intro same
    exact sound.key_of_number few first.number (same ▸ second.number)
  · intro same
    obtain ⟨n, there, number⟩ := first.number
    obtain ⟨m, there', number'⟩ := second.number
    rw [same, there'] at there
    rw [← number, ← number', Option.some.inj there]

end Sound

/-! ## One instance for each name -/

/-- What is registered stays so as long as its name is not registered anew. -/
theorem find?_call (keeps : c.overrides key = false) (there : r.names.find? key = some n) :
    (r.call c).2.names.find? key = some n := by
  rcases r.call_cases c with ⟨same, _⟩ | ⟨m, _, _, registers, new⟩
  · rw [same, there]
  · rw [registers.find?]
    split
    · rename_i same
      rw [same, there, keeps] at new
      rcases new with new | new <;> cases new
    · exact there

theorem find?_run {calls : List NameCall} (keep : ∀ c ∈ calls, c.overrides key = false)
    (there : r.names.find? key = some n) : (r.run calls).names.find? key = some n := by
  induction calls generalizing r with
  | nil => exact there
  | cons c rest ih =>
    refine ih (fun d mem => keep d (List.mem_cons_of_mem _ mem)) ?_
    exact find?_call (keep c List.mem_cons_self) there

/-- What a look-up finds is registered under the key. -/
theorem find?_of_seeks (seeks : c.seeks key = true) (found : (r.call c).1 = some n) :
    (r.call c).2.names.find? key = some n := by
  cases c with
  | get name =>
    simp only [NameCall.seeks, decide_eq_true_eq] at seeks
    rw [← seeks]
    exact found
  | getOrCreate name =>
    simp only [NameCall.seeks, decide_eq_true_eq] at seeks
    rcases r.call_cases (.getOrCreate name) with ⟨same, _, known⟩ | ⟨m, handed, text, registers, _⟩
    · rcases known n found with there | ⟨_, other, _⟩
      · rw [same, ← seeks]
        exact there
      · cases other
    · rw [found] at handed
      cases handed
      have own : n.key = key := by
        rw [registers.key, text, ← seeks]
        rfl
      rw [registers.find?, if_pos own]
  | override name replayable => cases seeks
  | standard m => cases seeks

/-- A look-up finds what is registered under the key. -/
theorem found_of_find? (seeks : c.seeks key = true) (there : r.names.find? key = some n) :
    (r.call c).1 = some n := by
  cases c with
  | get name =>
    simp only [NameCall.seeks, decide_eq_true_eq] at seeks
    rw [← seeks] at there
    exact there
  | getOrCreate name =>
    simp only [NameCall.seeks, decide_eq_true_eq] at seeks
    rw [← seeks] at there
    have known : r.get? name = some n := there
    simp only [call, getOrCreate, known]
  | override name replayable => cases seeks
  | standard m => cases seeks

/-- A name that is registered anew has a new instance. -/
theorem find?_of_overrides (overrides : c.overrides key = true) :
    ∃ n, (r.call c).1 = some n ∧ (r.call c).2.names.find? key = some n ∧
      n.serial = r.nextSerial := by
  cases c with
  | override name replayable =>
    simp only [NameCall.overrides, decide_eq_true_eq] at overrides
    subst overrides
    exact ⟨_, rfl, Table.find?_insert_self _ _ _, rfl⟩
  | get name => cases overrides
  | getOrCreate name => cases overrides
  | standard m => cases overrides

/-- What the last call handed out that registered a name anew is registered at the end. -/
theorem find?_after_override (r : NameRegistry) {early late : List NameCall}
    (overrides : c.overrides key = true) (keep : ∀ e ∈ late, e.overrides key = false) :
    ∃ n, ((r.run early).call c).1 = some n ∧
      (r.run (early ++ c :: late)).names.find? key = some n ∧
      n.serial = (r.run early).nextSerial := by
  obtain ⟨n, made, there, serial⟩ := find?_of_overrides (r := r.run early) overrides
  have stays := find?_run keep there
  refine ⟨n, made, ?_, serial⟩
  rw [run_append]
  exact stays

/-- Two look-ups of a name find the same instance, unless the name was registered anew between
them. Then the second one finds what the last such registration made. -/
theorem Sound.sought_again (sound : r.Sound) {c' : NameCall} {mid : List NameCall}
    {a b : HeaderName} (seeks : c.seeks key = true) (seeks' : c'.seeks key = true)
    (first : (r.call c).1 = some a) (second : (((r.call c).2.run mid).call c').1 = some b) :
    ((∀ d ∈ mid, d.overrides key = false) → b = a) ∧
    ∀ early d late, mid = early ++ d :: late → d.overrides key = true →
      (∀ e ∈ late, e.overrides key = false) →
      (((r.call c).2.run early).call d).1 = some b ∧ b.sameInstance a = false := by
  constructor
  · intro keep
    have there := find?_run keep (find?_of_seeks seeks first)
    rw [found_of_find? seeks' there] at second
    exact (Option.some.inj second).symm
  · rintro early d late rfl overrides keep
    obtain ⟨n, made, there, serial⟩ := (r.call c).2.find?_after_override overrides keep
    rw [found_of_find? seeks' there] at second
    obtain rfl : n = b := Option.some.inj second
    refine ⟨made, HeaderName.sameInstance_of_lt ?_⟩
    rw [serial]
    exact ((sound.issued first).run early).serial

/-- **Names and numbers correspond for ever.** Whatever calls are made of a registry, about no more
than `2 ^ 32` names in all, the standard ones included: instances that were handed out at any time
have the same number exactly if their names agree. The numbers in use are those from 0 up to the
number of names, and a standard name has its place among the standard names. A name that is
registered stays registered. Two look-ups that find an instance of the same name find the same one
as long as the name is not registered anew in between, and otherwise the second one finds another,
which the last such registration handed out. -/
theorem names_and_numbers_correspond (id : Nat) (debug : Bool) (calls : List NameCall)
    (few : (keysOf calls).dedup.length ≤ 2 ^ 32) :
    let start := create id debug
    let r := start.run calls
    (∀ a b, some a ∈ start.answers calls → some b ∈ start.answers calls →
      (a.number = b.number ↔ nameKey a.text = nameKey b.text)) ∧
    (∀ i, (∃ name n, r.get? name = some n ∧ n.number.toNat = i) ↔ i < r.size) ∧
    (∀ m, ∃ n, r.get? m.text = some n ∧ StandardName.all[n.number.toNat]? = some m) ∧
    (∀ before after name, calls = before ++ after →
      ((start.run before).get? name).isSome = true → (r.get? name).isSome = true) ∧
    ∀ key before c mid c' after a b, calls = before ++ c :: (mid ++ c' :: after) →
      c.seeks key = true → c'.seeks key = true → ((start.run before).call c).1 = some a →
      ((start.run (before ++ c :: mid)).call c').1 = some b →
      ((∀ d ∈ mid, d.overrides key = false) → b = a) ∧
      ∀ early d late, mid = early ++ d :: late → d.overrides key = true →
        (∀ e ∈ late, e.overrides key = false) →
        ((start.run (before ++ c :: early)).call d).1 = some b ∧ b.sameInstance a = false := by
  intro start r
  have begun : start.Sound := sound_create id debug
  have sound : r.Sound := begun.run calls
  have few : r.size ≤ 2 ^ 32 := Nat.le_trans (size_run_le id debug calls) few
  refine ⟨?_, sound.number_iff few, ?_, ?_, ?_⟩
  · intro a b first second
    exact sound.number_eq_iff few (begun.issued_of_mem first) (begun.issued_of_mem second)
  · intro m
    obtain ⟨n, there, number⟩ := (sound.standard m).number
    refine ⟨n, there, ?_⟩
    obtain ⟨inside, _⟩ := List.getElem?_eq_some_iff.mp (StandardName.getElem?_all m)
    have small : StandardName.all.length ≤ 2 ^ 32 := by decide
    have number : n.number = .ofNat m.number := number
    rw [number, toNat_ofNat_of_lt inside small]
    exact StandardName.getElem?_all m
  · rintro before after name rfl known
    rw [show r = (start.run before).run after from run_append _ _ _]
    exact known_run after known
  · rintro key before c mid c' after a b - seeks seeks' first second
    have after_c (l : List NameCall) : start.run (before ++ c :: l) =
        ((start.run before).call c).2.run l := run_append _ _ _
    rw [after_c] at second
    obtain ⟨same, other⟩ := (begun.run before).sought_again seeks seeks' first second
    refine ⟨same, ?_⟩
    intro early d late split overrides keep
    rw [after_c]
    exact other early d late split overrides keep

/-- A name that is asked for under one spelling and registered anew under another. -/
def respelled : List NameCall := [.getOrCreate " X-Test", .override "x-test" false, .get "X-TEST"]

/-- It has one number, and two instances. -/
theorem respelled_number : (keysOf respelled).dedup.length ≤ 2 ^ 32 ∧
    ∃ a b, (create 0 false).answers respelled = [some a, some b, some b] ∧
      a.number = b.number ∧ b.sameInstance a = false := by
  have few : (keysOf respelled).dedup.length ≤ 2 ^ 32 := by
    have most := (List.dedup_sublist (keysOf respelled)).length_le
    have length : (keysOf respelled).length = 37 := by decide
    omega
  obtain ⟨a, b, answers, first, second⟩ : ∃ a b,
      (create 0 false).answers respelled = [some a, some b, some b] ∧
      nameKey a.text = "x-test" ∧ nameKey b.text = "x-test" :=
    ⟨⟨0, 34, 34, " X-Test", "x-test", true⟩, ⟨0, 35, 34, "x-test", "x-test", false⟩,
      by decide +kernel, by decide +kernel, by decide +kernel⟩
  obtain ⟨numbers, _, _, _, instances⟩ := names_and_numbers_correspond 0 false respelled few
  refine ⟨few, a, b, answers, ?_, ?_⟩
  · refine (numbers a b ?_ ?_).mpr (first.trans second.symm)
    · simp [answers]
    · simp [answers]
  · have found := List.cons.inj answers
    have again := List.cons.inj found.2
    have last := List.cons.inj again.2
    refine ((instances "x-test" [] _ [_] _ [] a b rfl ?_ ?_ found.1 last.1).2 [] _ [] rfl
      ?_ ?_).2
    · decide +kernel
    · decide +kernel
    · decide +kernel
    · intro e mem
      cases mem

end NameRegistry

end Docroot
