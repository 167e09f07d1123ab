import Docroot.Proofs.Access
import Docroot.Proofs.Script
import Mathlib.Data.List.Forall2

/-!
A response cache is a plain map.

* `Shows`: how a cache stands for a map and for builds in progress. A key that has a slot has its
  snapshot there, and the slot is held exactly if the key is being built; every build in progress
  holds a slot of its own, which is registered under its key until it is evicted.
* Every call of the cache keeps this, and answers as the map does.
* `run_agrees`: so does every program, by induction on it. The closure of a build is run with one
  more slot held, and leaves the held slots as they are.
-/

namespace Docroot

theorem forall₂_of_mem_left {α β : Type} {R : α → β → Prop} {as : List α} {bs : List β}
    (h : List.Forall₂ R as bs) {a : α} (mem : a ∈ as) : ∃ b ∈ bs, R a b := by
  induction h with
  | nil => cases mem
  | cons r _ ih =>
    rcases List.mem_cons.mp mem with rfl | later
    · exact ⟨_, List.mem_cons_self, r⟩
    · obtain ⟨b, mem', r'⟩ := ih later
      exact ⟨b, List.mem_cons_of_mem _ mem', r'⟩

theorem forall₂_of_mem_right {α β : Type} {R : α → β → Prop} {as : List α} {bs : List β}
    (h : List.Forall₂ R as bs) {b : β} (mem : b ∈ bs) : ∃ a ∈ as, R a b :=
  forall₂_of_mem_left h.flip mem

namespace ResponseCache

/-- A build in progress holds a slot, which is given with its key. -/
structure Stands (c : ResponseCache) (b : Pending) (h : String × Nat) : Prop where
  key : b.key = h.1
  known : h.2 < c.slots.size
  slot : c.slot h.2 = ⟨none, true⟩
  registered : b.evicted = false → c.keys.find? h.1 = some h.2
  evicted : b.evicted = true → ∀ key, c.keys.find? key ≠ some h.2

/-- A cache with the given slots held stands for a map and for builds in progress. -/
structure Shows (c : ResponseCache) (p : Plain) (held : List (String × Nat)) : Prop where
  known : ∀ key i, c.keys.find? key = some i → i < c.slots.size
  apart : ∀ key key' i, c.keys.find? key = some i → c.keys.find? key' = some i → key = key'
  entry : ∀ key i, c.keys.find? key = some i → c.slot i = ⟨p.map.find? key, p.busy key⟩
  free : ∀ key, c.keys.find? key = none → p.map.find? key = none ∧ p.busy key = false
  builds : List.Forall₂ c.Stands p.builds held
  once : (held.map Prod.snd).Nodup

variable {c : ResponseCache} {p : Plain} {held : List (String × Nat)} {key : String} {i : Nat}

theorem slot_setSlot (c : ResponseCache) (i j : Nat) (s : Slot) :
    (c.setSlot i s).slot j = if i = j ∧ i < c.slots.size then s else c.slot j :=
  getD_setIfInBounds _ _ _ _ _

/-- A build holds its slot as long as neither the slot nor what is registered for it changes. -/
theorem Stands.mono {c' : ResponseCache} {b : Pending} {h : String × Nat} (stands : c.Stands b h)
    (size : c.slots.size ≤ c'.slots.size) (slot : c'.slot h.2 = c.slot h.2)
    (keys : ∀ key, c'.keys.find? key = some h.2 ↔ c.keys.find? key = some h.2) :
    c'.Stands b h where
  key := stands.key
  known := Nat.lt_of_lt_of_le stands.known size
  slot := slot.trans stands.slot
  registered kept := (keys _).mpr (stands.registered kept)
  evicted gone key there := stands.evicted gone key ((keys key).mp there)

theorem shows_empty : Shows .empty ⟨.empty, []⟩ [] where
  known _ _ there := by cases there
  apart _ _ _ there := by cases there
  entry _ _ there := by cases there
  free _ _ := ⟨rfl, rfl⟩
  builds := .nil
  once := List.nodup_nil

/-- A held slot is not the slot of a key that is not being built. -/
theorem Shows.ne_of_idle (h : Shows c p held) (there : c.keys.find? key = some i)
    (idle : p.busy key = false) {b : Pending} {k : String × Nat} (stands : c.Stands b k) :
    i ≠ k.2 := by
  rintro rfl
  have now := h.entry key _ there
  rw [stands.slot, idle] at now
  exact Bool.noConfusion (congrArg Slot.held now)

/-! ## Changes of a slot -/

/-- A new slot for a key that has none. -/
theorem Shows.newSlot (h : Shows c p held) (unused : c.keys.find? key = none) :
    Shows ⟨c.slots.push ⟨none, false⟩, c.keys.insert key c.slots.size⟩ p held where
  known key' j there := by
    rw [Table.find?_insert] at there
    rw [Array.size_push]
    split at there
    · cases there
      exact Nat.lt_succ_self _
    · exact Nat.lt_succ_of_lt (h.known key' j there)
  apart key₁ key₂ j there there' := by
    rw [Table.find?_insert] at there there'
    split at there <;> split at there'
    · rename_i same same'
      exact same.symm.trans same'
    · cases there
      exact absurd (h.known _ _ there') (Nat.lt_irrefl _)
    · cases there'
      exact absurd (h.known _ _ there) (Nat.lt_irrefl _)
    · exact h.apart key₁ key₂ j there there'
  entry key' j there := by
    rw [Table.find?_insert] at there
    refine (getD_push _ _ _ _).trans ?_
    split at there
    · rename_i same
      cases there
      obtain ⟨unbuilt, idle⟩ := h.free key unused
      rw [if_pos rfl, ← same, unbuilt, idle]
    · rw [if_neg (Nat.ne_of_lt (h.known key' j there))]
      exact h.entry key' j there
  free key' new := by
    rw [Table.find?_insert] at new
    split at new
    · cases new
    · exact h.free key' new
  builds := h.builds.imp fun b k stands => by
    refine stands.mono (by simp) ?_ fun key' => ?_
    · exact (getD_push _ _ _ _).trans (if_neg (Nat.ne_of_lt stands.known))
    · rw [Table.find?_insert]
      split
      · rename_i same
        have other : c.slots.size ≠ k.2 := Nat.ne_of_gt stands.known
        simp [← same, unused, other]
      · exact Iff.rfl
  once := h.once

theorem Shows.slotFor (h : Shows c p held) (key : String) :
    Shows (c.slotFor key).2 p held ∧
    (c.slotFor key).2.keys.find? key = some (c.slotFor key).1 := by
  simp only [ResponseCache.slotFor]
  split
  · exact ⟨h, ‹_›⟩
  · exact ⟨h.newSlot ‹_›, Table.find?_insert_self _ _ _⟩

/-- Filling or emptying the slot of a key that is not being built. -/
theorem Shows.store (h : Shows c p held) (there : c.keys.find? key = some i)
    (idle : p.busy key = false) {map : Table String Snapshot}
    (others : ∀ key', key' ≠ key → map.find? key' = p.map.find? key') :
    Shows (c.setSlot i ⟨map.find? key, false⟩) { p with map } held where
  known key' j there' := by
    simpa [setSlot] using h.known key' j there'
  apart := h.apart
  entry key' j there' := by
    rw [slot_setSlot]
    split
    · rename_i same
      obtain rfl : key' = key := h.apart key' key j there' (same.1 ▸ there)
      exact congrArg _ idle.symm
    · rename_i other
      have ne : key' ≠ key := by
        rintro rfl
        have same : i = j := Option.some.inj (there.symm.trans there')
        exact other ⟨same, h.known _ _ there⟩
      rw [others key' ne]
      exact h.entry key' j there'
  free key' new := by
    have ne : key' ≠ key := by
      rintro rfl
      cases new.symm.trans there
    rw [others key' ne]
    exact h.free key' new
  builds := h.builds.imp fun b k stands =>
    stands.mono (by simp [setSlot])
      (by rw [slot_setSlot, if_neg fun same => h.ne_of_idle there idle stands same.1])
      fun _ => Iff.rfl
  once := h.once

/-- A map counts by what it has under each key. -/
theorem Shows.congr (h : Shows c p held) {map : Table String Snapshot}
    (same : ∀ key, map.find? key = p.map.find? key) : Shows c { p with map } held where
  known := h.known
  apart := h.apart
  entry key i there := by
    rw [same]
    exact h.entry key i there
  free key new := by
    rw [same]
    exact h.free key new
  builds := h.builds
  once := h.once

/-- A key without a snapshot may lose its slot. -/
theorem Shows.unregister (h : Shows c p held) (there : c.keys.find? key = some i)
    (idle : p.busy key = false) (unbuilt : p.map.find? key = none) :
    Shows { c with keys := c.keys.erase key } p held where
  known key' j there' := by
    rw [Table.find?_erase] at there'
    split at there'
    · cases there'
    · exact h.known key' j there'
  apart key₁ key₂ j there₁ there₂ := by
    rw [Table.find?_erase] at there₁ there₂
    split at there₁ <;> split at there₂
    · cases there₁
    · cases there₁
    · cases there₂
    · exact h.apart key₁ key₂ j there₁ there₂
  entry key' j there' := by
    rw [Table.find?_erase] at there'
    split at there'
    · cases there'
    · exact h.entry key' j there'
  free key' new := by
    rw [Table.find?_erase] at new
    split at new
    · rename_i same
      exact same ▸ ⟨unbuilt, idle⟩
    · exact h.free key' new
  builds := h.builds.imp fun b k stands => stands.mono (Nat.le_refl _) rfl fun key' => by
    rw [Table.find?_erase]
    split
    · rename_i same
      have other := h.ne_of_idle there idle stands
      simp [← same, there, other]
    · exact Iff.rfl
  once := h.once

/-- A build takes the empty slot of a key that is not being built. -/
theorem Shows.hold (h : Shows c p held) (there : c.keys.find? key = some i)
    (idle : p.busy key = false) (unbuilt : p.map.find? key = none) :
    Shows (c.setSlot i ⟨none, true⟩) (p.begin key) ((key, i) :: held) where
  known key' j there' := by
    simpa [setSlot] using h.known key' j there'
  apart := h.apart
  entry key' j there' := by
    have now := h.known key i there
    rw [slot_setSlot]
    split
    · rename_i same
      obtain rfl : key' = key := h.apart key' key j there' (same.1 ▸ there)
      simp [Plain.begin, Plain.busy, unbuilt]
    · rename_i other
      have ne : key ≠ key' := by
        rintro rfl
        have same : i = j := Option.some.inj (there.symm.trans there')
        exact other ⟨same, now⟩
      rw [h.entry key' j there']
      simp [Plain.begin, Plain.busy, ne]
  free key' new := by
    have ne : key ≠ key' := by
      rintro rfl
      cases new.symm.trans there
    obtain ⟨unbuilt', idle'⟩ := h.free key' new
    refine ⟨unbuilt', ?_⟩
    simpa [Plain.begin, Plain.busy, ne] using idle'
  builds := by
    have now := h.known key i there
    refine .cons ⟨rfl, by simpa [setSlot] using now, ?_, fun _ => there, fun gone => by cases gone⟩
      (h.builds.imp fun b k stands => stands.mono (by simp [setSlot]) ?_ fun _ => Iff.rfl)
    · rw [slot_setSlot, if_pos ⟨rfl, now⟩]
    · rw [slot_setSlot, if_neg fun same => h.ne_of_idle there idle stands same.1]
  once := by
    refine List.nodup_cons.mpr ⟨fun mem => ?_, h.once⟩
    obtain ⟨k, mem, same⟩ := List.mem_map.mp mem
    obtain ⟨b, _, stands⟩ := forall₂_of_mem_right h.builds mem
    exact h.ne_of_idle there idle stands same.symm

section
variable {map map' : Table String Snapshot} {b : Pending} {rest : List Pending} {key' : String}

theorem Shows.innermost (h : Shows c ⟨map, b :: rest⟩ ((key, i) :: held)) :
    c.Stands b (key, i) ∧ List.Forall₂ c.Stands rest held ∧ i ∉ held.map Prod.snd ∧
    (held.map Prod.snd).Nodup := by
  obtain ⟨stands, restStands⟩ := List.forall₂_cons.mp h.builds
  obtain ⟨fresh, once⟩ := List.nodup_cons.mp h.once
  exact ⟨stands, restStands, fresh, once⟩

/-- The slot of the innermost build is registered under its key, if under any. -/
theorem Shows.owner (h : Shows c ⟨map, b :: rest⟩ ((key, i) :: held))
    (there : c.keys.find? key' = some i) : b.evicted = false ∧ key' = key := by
  obtain ⟨stands, _⟩ := h.innermost
  have registered : b.evicted = false := Bool.eq_false_iff.mpr fun evicted =>
    stands.evicted evicted key' there
  exact ⟨registered, h.apart key' key i there (stands.registered registered)⟩

theorem Shows.far (h : Shows c ⟨map, b :: rest⟩ ((key, i) :: held))
    (other : c.keys.find? key' ≠ some i) : key' ≠ key ∨ b.evicted = true := by
  by_contra near
  simp only [not_or, not_not, Bool.not_eq_true] at near
  obtain ⟨rfl, registered⟩ := near
  exact other (h.innermost.1.registered registered)

theorem Shows.busy_far (h : Shows c ⟨map, b :: rest⟩ ((key, i) :: held))
    (far : key' ≠ key ∨ b.evicted = true) :
    Plain.busy ⟨map, b :: rest⟩ key' = Plain.busy ⟨map', rest⟩ key' := by
  have notThis : (b.key == key' && !b.evicted) = false := by
    rcases far with ne | evicted
    · simp [show b.key = key from h.innermost.1.key, Ne.symm ne]
    · simp [evicted]
  simp only [Plain.busy, List.any_cons, notThis, Bool.false_or]

/-- No two builds of a key are in progress, unless all but one were evicted. -/
theorem Shows.idle_under (h : Shows c ⟨map, b :: rest⟩ ((key, i) :: held))
    (registered : b.evicted = false) : Plain.busy ⟨map', rest⟩ key = false := by
  obtain ⟨stands, restStands, fresh, _⟩ := h.innermost
  refine List.any_eq_false.mpr fun b' mem => ?_
  obtain ⟨k, mem, stands'⟩ := forall₂_of_mem_left restStands mem
  simp only [Bool.and_eq_true, beq_iff_eq, Bool.not_eq_true', not_and, Bool.not_eq_false]
  intro ofKey
  by_contra registered'
  have there := stands'.registered (Bool.eq_false_iff.mpr registered')
  rw [← stands'.key, ofKey] at there
  have same : i = k.2 := Option.some.inj ((stands.registered registered).symm.trans there)
  exact fresh (List.mem_map.mpr ⟨k, mem, same.symm⟩)

/-- The innermost build gives its slot back. If the slot is still that of its key, the map has what
is left in it. -/
theorem Shows.release (h : Shows c ⟨map, b :: rest⟩ ((key, i) :: held)) {v : Option Snapshot}
    (kept : b.evicted = false → map'.find? key = v)
    (others : ∀ key', key' ≠ key ∨ b.evicted = true → map'.find? key' = map.find? key') :
    Shows (c.setSlot i ⟨v, false⟩) ⟨map', rest⟩ held where
  known key' j there := by
    simpa [setSlot] using h.known key' j there
  apart := h.apart
  entry key' j there := by
    have there : c.keys.find? key' = some j := there
    rw [slot_setSlot]
    split
    · rename_i this
      obtain ⟨rfl, _⟩ := this
      obtain ⟨registered, rfl⟩ := h.owner there
      rw [kept registered, h.idle_under registered]
    · rename_i notThis
      have far : key' ≠ key ∨ b.evicted = true := h.far fun this => by
        have same : i = j := Option.some.inj (this.symm.trans there)
        exact notThis ⟨same, h.innermost.1.known⟩
      rw [h.entry key' j there, others key' far, h.busy_far far]
  free key' new := by
    have new : c.keys.find? key' = none := new
    have far : key' ≠ key ∨ b.evicted = true := h.far (by simp [new])
    rw [others key' far, ← h.busy_far far]
    exact h.free key' new
  builds := by
    obtain ⟨_, restStands, fresh, _⟩ := h.innermost
    refine List.forall₂_iff_zip.mpr ⟨restStands.length_eq, fun {b' k} mem => ?_⟩
    have other : i ≠ k.2 := fun same =>
      fresh (List.mem_map.mpr ⟨k, (List.of_mem_zip mem).2, same.symm⟩)
    exact (List.forall₂_zip restStands mem).mono (by simp [setSlot])
      (by rw [slot_setSlot, if_neg fun this => other this.1]) fun _ => Iff.rfl
  once := h.innermost.2.2.2

end

/-- All keys are gone, and all builds are evicted. -/
theorem Shows.clear (h : Shows c p held) : Shows c.clear p.clear held where
  known _ _ there := by cases there
  apart _ _ _ there := by cases there
  entry _ _ there := by cases there
  free key _ := by
    refine ⟨rfl, ?_⟩
    simp [Plain.busy, Plain.clear]
  builds := by
    refine List.forall₂_map_left_iff.mpr (h.builds.imp fun b k stands => ?_)
    refine ⟨stands.key, stands.known, stands.slot, fun kept => ?_, fun _ _ there => ?_⟩
    · cases kept
    · cases there
  once := h.once

/-! ## The calls of the cache -/

/-- Two calls give the same answer and states that are related, or both are blocked. -/
inductive Alike {α κ κ' : Type} (R : κ → κ' → Prop) :
    Except Blocked (α × κ) → Except Blocked (α × κ') → Prop
  | blocked : Alike R (.error .blocked) (.error .blocked)
  | done (a : α) {s : κ} {s' : κ'} : R s s' → Alike R (.ok (a, s)) (.ok (a, s'))

theorem Shows.get (h : Shows c p held) (key : String) : c.get key = p.get key := by
  simp only [ResponseCache.get, Plain.get]
  cases there : c.keys.find? key with
  | none =>
    obtain ⟨none, idle⟩ := h.free key there
    simp [none, idle]
  | some i => simp [h.entry key i there]

theorem Shows.insert (h : Shows c p held) (key : String) (x : Snapshot) :
    Alike (Shows · · held) (c.insert key x) (p.insert key x) := by
  obtain ⟨h, there⟩ := h.slotFor key
  have entry := h.entry key _ there
  simp only [ResponseCache.insert, Plain.insert, entry]
  cases idle : p.busy key with
  | true => exact .blocked
  | false =>
    have others (key' : String) (ne : key' ≠ key) :
        (p.map.insert key x).find? key' = p.map.find? key' := by
      rw [Table.find?_insert, if_neg (Ne.symm ne)]
    have stored := h.store there idle others
    rw [Table.find?_insert_self] at stored
    exact .done _ stored

theorem Shows.remove (h : Shows c p held) (key : String) :
    Alike (Shows · · held) (c.remove key) (p.remove key) := by
  have others (key' : String) (ne : key' ≠ key) :
      (p.map.erase key).find? key' = p.map.find? key' := by
    rw [Table.find?_erase, if_neg (Ne.symm ne)]
  simp only [ResponseCache.remove, Plain.remove]
  cases there : c.keys.find? key with
  | none =>
    obtain ⟨unbuilt, idle⟩ := h.free key there
    have same (key' : String) : (p.map.erase key).find? key' = p.map.find? key' := by
      by_cases this : key' = key
      · rw [this, Table.find?_erase_self, unbuilt]
      · exact others key' this
    simp only [idle, unbuilt]
    exact .done _ (h.congr same)
  | some i =>
    simp only [h.entry key i there]
    cases idle : p.busy key with
    | true => exact .blocked
    | false =>
      have emptied := h.store there idle others
      rw [Table.find?_erase_self] at emptied
      exact .done _ (emptied.unregister there idle (Table.find?_erase_self _ _))

/-- How a build starts. -/
theorem Shows.start (h : Shows c p held) (key : String) :
    if p.busy key then c.start key = .error .blocked
    else match p.map.find? key with
      | some x => ∃ c', c.start key = .ok (.hit x, c') ∧ Shows c' p held
      | none => ∃ i c', c.start key = .ok (.build i, c') ∧
        Shows c' (p.begin key) ((key, i) :: held) := by
  obtain ⟨h, there⟩ := h.slotFor key
  have entry := h.entry key _ there
  simp only [ResponseCache.start, entry]
  cases idle : p.busy key with
  | true => rfl
  | false =>
    cases built : p.map.find? key with
    | some x => exact ⟨_, rfl, h⟩
    | none => exact ⟨_, _, rfl, h.hold there idle built⟩

theorem Shows.abandon (h : Shows c p ((key, i) :: held)) : Shows (c.abandon i) p.abandon held := by
  obtain ⟨map, builds⟩ := p
  obtain ⟨b, rest, stands, _, rfl⟩ := List.forall₂_cons_right_iff.mp h.builds
  refine h.release (fun registered => ?_) fun _ _ => rfl
  have entry := h.entry key i (stands.registered registered)
  rw [stands.slot] at entry
  exact (congrArg Slot.value entry).symm

/-- A build is stored exactly if it was not evicted. -/
theorem Shows.finish (h : Shows c p ((key, i) :: held)) (x : Snapshot) :
    c.registered key i = p.keeps ∧ Shows (c.finish key i x) (p.finish key x) held := by
  obtain ⟨map, builds⟩ := p
  obtain ⟨b, rest, stands, _, rfl⟩ := List.forall₂_cons_right_iff.mp h.builds
  have keeps : Plain.keeps ⟨map, b :: rest⟩ = !b.evicted := rfl
  cases evicted : b.evicted with
  | false =>
    have registered : c.registered key i = true := by
      simp [ResponseCache.registered, stands.registered evicted]
    refine ⟨by rw [registered, keeps, evicted]; rfl, ?_⟩
    rw [ResponseCache.finish, registered, Plain.finish, keeps, evicted]
    refine h.release (fun _ => Table.find?_insert_self _ _ _) fun key' far => ?_
    have ne : key' ≠ key := far.resolve_right (by simp [evicted])
    rw [Table.find?_insert, if_neg (Ne.symm ne)]
  | true =>
    have registered : c.registered key i = false := by
      simp [ResponseCache.registered, stands.evicted evicted key]
    refine ⟨by rw [registered, keeps, evicted]; rfl, ?_⟩
    rw [ResponseCache.finish, registered, Plain.finish, keeps, evicted]
    exact h.release (fun registered => by simp [evicted] at registered) fun _ _ => rfl

end ResponseCache

/-! ## Programs -/

open ResponseCache (Alike)

variable {τ : Type}

/-- A cache that stands for a plain map, with the same around it. -/
structure Scene.Shows (held : List (String × Nat)) (s : Scene ResponseCache τ)
    (s' : Scene Plain τ) : Prop where
  cache : s.cache.Shows s'.cache held
  outside : s.outside = s'.outside
  replies : s.replies = s'.replies

theorem Scene.Shows.reply {held : List (String × Nat)} {s : Scene ResponseCache τ}
    {s' : Scene Plain τ} (h : Scene.Shows held s s') (r : Reply) :
    Scene.Shows held (s.reply r) (s'.reply r) :=
  ⟨h.cache, h.outside, congrArg _ h.replies⟩

theorem freeze_host (o : Outside τ) (body : Body) (s : Scene ResponseCache τ) :
    o.host.freeze body s = ((o.freeze body s.outside).1,
      { s with outside := (o.freeze body s.outside).2 }) := rfl

/-- A build of closures that are alike. -/
theorem getOrBuild_alike (o : Outside τ) {held : List (String × Nat)} (key : String)
    {build : Scene ResponseCache τ →
      Except Blocked (Except ServeError Body × Scene ResponseCache τ)}
    {build' : Scene Plain τ → Except Blocked (Except ServeError Body × Scene Plain τ)}
    (closure : ∀ held s s', Scene.Shows held s s' →
      Alike (Scene.Shows held) (build s) (build' s'))
    {s : Scene ResponseCache τ} {s' : Scene Plain τ} (h : Scene.Shows held s s') :
    Alike (Scene.Shows held) (ResponseCache.getOrBuild o.host key build s)
      (Plain.getOrBuild o key build' s') := by
  have start := h.cache.start key
  simp only [ResponseCache.getOrBuild, Plain.getOrBuild, freeze_host]
  simp only [Outside.host]
  cases idle : s'.cache.busy key with
  | true =>
    simp only [idle, if_true] at start
    simp only [start]
    exact .blocked
  | false =>
    simp only [idle, Bool.false_eq_true, if_false] at start ⊢
    cases built : s'.cache.map.find? key with
    | some x =>
      simp only [built] at start
      obtain ⟨c', started, shows⟩ := start
      simp only [started]
      exact .done _ ⟨shows, congrArg _ h.outside, h.replies⟩
    | none =>
      simp only [built] at start
      obtain ⟨i, c', started, shows⟩ := start
      simp only [started]
      have ran := closure _ { s with cache := c' } { s' with cache := s'.cache.begin key }
        ⟨shows, h.outside, h.replies⟩
      generalize build { s with cache := c' } = r at ran ⊢
      generalize build' { s' with cache := s'.cache.begin key } = r' at ran ⊢
      cases ran with
      | blocked => exact .blocked
      | @done a u u' after =>
        cases a with
        | error e => exact .done _ ⟨after.cache.abandon, after.outside, after.replies⟩
        | ok body =>
          simp only [after.outside]
          generalize o.freeze body u'.outside = answer
          obtain ⟨frozen, t⟩ := answer
          cases frozen with
          | error e => exact .done _ ⟨after.cache.abandon, rfl, after.replies⟩
          | ok x =>
            obtain ⟨keeps, finished⟩ := after.cache.finish x
            simp only [keeps]
            exact .done _ ⟨finished, rfl, after.replies⟩

/-- A program does over a cache what it does over the map that the cache stands for. -/
theorem run_alike (o : Outside τ) (script : Script τ) {held : List (String × Nat)}
    {s : Scene ResponseCache τ} {s' : Scene Plain τ} (h : Scene.Shows held s s') :
    Alike (Scene.Shows held) (script.run o s) (script.runPlain o s') := by
  induction script generalizing held s s' with
  | yield r => exact .done r h
  | aside act next ih =>
    simp only [Script.run, Script.runPlain, h.outside]
    exact ih _ ⟨h.cache, rfl, h.replies⟩
  | get key next ih =>
    simp only [Script.run, Script.runPlain, h.cache.get key]
    cases s'.cache.get key with
    | error b => exact .blocked
    | ok x => exact ih x (h.reply _)
  | insert key x next ih =>
    have called := h.cache.insert key x
    simp only [Script.run, Script.runPlain]
    generalize s.cache.insert key x = r at called ⊢
    generalize s'.cache.insert key x = r' at called ⊢
    cases called with
    | blocked => exact .blocked
    | @done old c p shows =>
      have after : Scene.Shows held { s with cache := c } { s' with cache := p } :=
        ⟨shows, h.outside, h.replies⟩
      exact ih old (after.reply _)
  | remove key next ih =>
    have called := h.cache.remove key
    simp only [Script.run, Script.runPlain]
    generalize s.cache.remove key = r at called ⊢
    generalize s'.cache.remove key = r' at called ⊢
    cases called with
    | blocked => exact .blocked
    | @done old c p shows =>
      have after : Scene.Shows held { s with cache := c } { s' with cache := p } :=
        ⟨shows, h.outside, h.replies⟩
      exact ih old (after.reply _)
  | clear next ih => exact ih ⟨h.cache.clear, h.outside, h.replies⟩
  | build key closure next ihClosure ih =>
    have called := getOrBuild_alike o key (fun _ _ _ h => ihClosure h) h
    simp only [Script.run, Script.runPlain]
    generalize ResponseCache.getOrBuild o.host key (closure.run o) s = r at called ⊢
    generalize Plain.getOrBuild o key (closure.runPlain o) s' = r' at called ⊢
    cases called with
    | blocked => exact .blocked
    | done built after => exact ih built (after.reply _)

/-- **A response cache is a plain map, whatever its builds do to it.** A program that starts with an
empty cache is blocked over the cache exactly if it is over the map. Otherwise all answers are the
same and the program ends alike, with the same state besides the cache, and the cache has under
each key what the map has there. -/
theorem run_agrees (o : Outside τ) (script : Script τ) (t : τ) :
    Alike (fun s s' => s.outside = s'.outside ∧ s.replies = s'.replies ∧
        ∀ key, s.cache.get key = .ok (s'.cache.map.find? key))
      (script.run o ⟨.empty, t, []⟩) (script.runPlain o ⟨⟨.empty, []⟩, t, []⟩) := by
  have start : Scene.Shows [] (⟨.empty, t, []⟩ : Scene ResponseCache τ) ⟨⟨.empty, []⟩, t, []⟩ :=
    ⟨ResponseCache.shows_empty, rfl, rfl⟩
  have ran := run_alike o script start
  generalize script.run o ⟨.empty, t, []⟩ = r at ran ⊢
  generalize script.runPlain o ⟨⟨.empty, []⟩, t, []⟩ = r' at ran ⊢
  cases ran with
  | blocked => exact .blocked
  | @done a s s' after =>
    refine .done a ⟨after.outside, after.replies, fun key => ?_⟩
    have ended : s'.cache.builds = [] := List.forall₂_nil_right_iff.mp after.cache.builds
    rw [after.cache.get key, Plain.get, Plain.busy, ended]
    rfl

end Docroot
