import Docroot.Proofs.Refinement

/-!
What the size of a response cache counts.

The size counts the keys that have a slot. A slot is made before its snapshot is built, and stays
when the build fails. So the size counts the keys with a snapshot and, besides, those whose last
build failed: `Script.vacancies` follows a program and keeps track of them. They are gone once the
key is built after all, or stored or removed, or the cache is cleared.
-/

namespace Docroot

variable {τ : Type}

/-- The keys that a build leaves vacant: `inside` is what happens to them during the build. -/
def Plain.vacancies (key : String)
    (build : Scene Plain τ → Except Blocked (Except ServeError Body × Scene Plain τ))
    (inside : Scene Plain τ → List String → List String) (r : Except ServeError Snapshot)
    (s : Scene Plain τ) (l : List String) : List String :=
  match s.cache.map.find? key with
  | some _ => l
  | none =>
    let begun := { s with cache := s.cache.begin key }
    let l := inside begun (l.filter (· ≠ key))
    match r, build begun with
    | .error _, .ok (_, s) => if s.cache.keeps then key :: l else l
    | _, _ => l

/-- The keys whose last build failed, and which nothing happened to since. Those at the beginning
are given. -/
def Script.vacancies (o : Outside τ) : Script τ → Scene Plain τ → List String → List String
  | yield _, _, l => l
  | aside act next, s, l =>
    let t := act s.outside
    (next t).vacancies o { s with outside := t } l
  | get key next, s, l =>
    match s.cache.get key with
    | .error _ => l
    | .ok x => (next x).vacancies o (s.reply (.got x)) l
  | insert key x next, s, l =>
    match s.cache.insert key x with
    | .error _ => l
    | .ok (old, p) =>
      (next old).vacancies o ({ s with cache := p }.reply (.inserted old)) (l.filter (· ≠ key))
  | remove key next, s, l =>
    match s.cache.remove key with
    | .error _ => l
    | .ok (old, p) =>
      (next old).vacancies o ({ s with cache := p }.reply (.removed old)) (l.filter (· ≠ key))
  | clear next, s, _ => next.vacancies o { s with cache := s.cache.clear } []
  | build key closure next, s, l =>
    match Plain.getOrBuild o key (closure.runPlain o) s with
    | .error _ => l
    | .ok (r, t) => (next r).vacancies o (t.reply (.built r))
        (Plain.vacancies key (closure.runPlain o) (closure.vacancies o) r s l)

namespace ResponseCache

/-- A key has a slot with nothing in it, and no build holds the slot. -/
def Vacant (c : ResponseCache) (key : String) : Prop :=
  ∃ i, c.keys.find? key = some i ∧ c.slot i = ⟨none, false⟩

/-- A list of all keys that are vacant. -/
structure Vacancies (c : ResponseCache) (l : List String) : Prop where
  once : l.Nodup
  all : ∀ key, key ∈ l ↔ c.Vacant key

variable {c c' : ResponseCache} {p : Plain} {held : List (String × Nat)} {key : String} {i : Nat}
  {l : List String}

theorem vacancies_empty : Vacancies .empty [] where
  once := List.nodup_nil
  all key := by
    constructor
    · intro mem
      cases mem
    · rintro ⟨i, there, _⟩
      cases there

/-- One key is no longer vacant, and the others stay as they are. -/
theorem Vacancies.fill (h : c.Vacancies l) (now : ¬ c'.Vacant key)
    (others : ∀ key', key' ≠ key → (c'.Vacant key' ↔ c.Vacant key')) :
    c'.Vacancies (l.filter (· ≠ key)) where
  once := h.once.filter _
  all key' := by
    rw [List.mem_filter, decide_eq_true_eq, h.all key']
    constructor
    · rintro ⟨vacant, ne⟩
      exact (others key' ne).mpr vacant
    · intro vacant
      have ne : key' ≠ key := by
        rintro rfl
        exact now vacant
      exact ⟨(others key' ne).mp vacant, ne⟩

/-- One key is vacant from now on, and the others stay as they are. -/
theorem Vacancies.vacate (h : c.Vacancies l) (before : ¬ c.Vacant key) (now : c'.Vacant key)
    (others : ∀ key', key' ≠ key → (c'.Vacant key' ↔ c.Vacant key')) :
    c'.Vacancies (key :: l) where
  once := List.nodup_cons.mpr ⟨fun mem => before ((h.all key).mp mem), h.once⟩
  all key' := by
    rw [List.mem_cons]
    by_cases same : key' = key
    · subst same
      exact ⟨fun _ => now, fun _ => .inl rfl⟩
    · rw [others key' same, h.all key']
      simp [same]

theorem Vacancies.congr (h : c.Vacancies l) (same : ∀ key, c'.Vacant key ↔ c.Vacant key) :
    c'.Vacancies l where
  once := h.once
  all key := (h.all key).trans (same key).symm

/-! ## Changes of a slot -/

theorem vacant_setSlot_self (there : c.keys.find? key = some i) (known : i < c.slots.size)
    (s : Slot) : (c.setSlot i s).Vacant key ↔ s = ⟨none, false⟩ := by
  have slot : (c.setSlot i s).slot i = s := by
    rw [slot_setSlot, if_pos ⟨rfl, known⟩]
  constructor
  · rintro ⟨j, there', empty⟩
    obtain rfl : i = j := Option.some.inj (there.symm.trans there')
    exact slot.symm.trans empty
  · intro empty
    exact ⟨i, there, slot.trans empty⟩

theorem vacant_setSlot_other {key : String} (apart : c.keys.find? key ≠ some i) (s : Slot) :
    (c.setSlot i s).Vacant key ↔ c.Vacant key := by
  have slot (j : Nat) (there : c.keys.find? key = some j) : (c.setSlot i s).slot j = c.slot j := by
    rw [slot_setSlot, if_neg]
    rintro ⟨rfl, _⟩
    exact apart there
  constructor
  · rintro ⟨j, there, empty⟩
    exact ⟨j, there, (slot j there).symm.trans empty⟩
  · rintro ⟨j, there, empty⟩
    exact ⟨j, there, (slot j there).trans empty⟩

theorem Shows.vacant_slotFor (h : Shows c p held) {key' : String} (ne : key' ≠ key) :
    (c.slotFor key).2.Vacant key' ↔ c.Vacant key' := by
  simp only [ResponseCache.slotFor]
  split
  · exact Iff.rfl
  · have keys : (c.keys.insert key c.slots.size).find? key' = c.keys.find? key' := by
      rw [Table.find?_insert, if_neg (Ne.symm ne)]
    have slot (j : Nat) (there : c.keys.find? key' = some j) :
        slot ⟨c.slots.push ⟨none, false⟩, c.keys.insert key c.slots.size⟩ j = c.slot j :=
      (getD_push _ _ _ _).trans (if_neg (Nat.ne_of_lt (h.known key' j there)))
    simp only [Vacant, keys]
    constructor
    · rintro ⟨j, there, empty⟩
      exact ⟨j, there, (slot j there).symm.trans empty⟩
    · rintro ⟨j, there, empty⟩
      exact ⟨j, there, (slot j there).trans empty⟩

/-- A key whose slot is taken for something else than nothing, is no longer vacant. -/
theorem Vacancies.occupy (h : c.Vacancies l) (shows' : Shows c p held) {s : Slot}
    (some' : s ≠ ⟨none, false⟩) :
    ((c.slotFor key).2.setSlot (c.slotFor key).1 s).Vacancies (l.filter (· ≠ key)) := by
  obtain ⟨after, there⟩ := shows'.slotFor key
  refine h.fill ?_ ?_
  · rw [vacant_setSlot_self there (after.known _ _ there)]
    exact some'
  · intro key' ne
    rw [vacant_setSlot_other, shows'.vacant_slotFor ne]
    intro there'
    exact ne (after.apart key' key _ there' there)

/-! ## The calls of the cache -/

theorem Vacancies.insert (h : c.Vacancies l) (shows' : Shows c p held) {x : Snapshot}
    {old : Option Snapshot} (done : c.insert key x = .ok (old, c')) :
    c'.Vacancies (l.filter (· ≠ key)) := by
  simp only [ResponseCache.insert] at done
  split at done
  · cases done
  · cases done
    refine h.occupy shows' ?_
    intro same
    cases same

theorem Vacancies.remove (h : c.Vacancies l) {old : Option Snapshot}
    (shows' : Shows c p held) (done : c.remove key = .ok (old, c')) :
    c'.Vacancies (l.filter (· ≠ key)) := by
  simp only [ResponseCache.remove] at done
  split at done
  · rename_i unused
    cases done
    refine h.fill ?_ fun _ _ => Iff.rfl
    rintro ⟨i, there, _⟩
    cases unused.symm.trans there
  · rename_i i there
    split at done
    · cases done
    · cases done
      refine h.fill ?_ ?_
      · rintro ⟨j, there', _⟩
        simp [setSlot] at there'
      · intro key' ne
        have keys : (c.keys.erase key).find? key' = c.keys.find? key' := by
          rw [Table.find?_erase, if_neg (Ne.symm ne)]
        rw [vacant_setSlot_other]
        · simp only [Vacant, keys]
          exact Iff.rfl
        · rw [keys]
          intro there'
          exact ne (shows'.apart key' key i there' there)

theorem vacancies_clear (c : ResponseCache) : c.clear.Vacancies [] where
  once := List.nodup_nil
  all key := by
    constructor
    · intro mem
      cases mem
    · rintro ⟨i, there, _⟩
      cases there

/-- A build that finds its snapshot leaves everything as it is, and any other takes the slot. -/
theorem Vacancies.start (h : c.Vacancies l) (shows' : Shows c p held) {start : Start}
    (done : c.start key = .ok (start, c')) :
    match start with
    | .hit _ => c'.Vacancies l
    | .build _ => c'.Vacancies (l.filter (· ≠ key)) := by
  simp only [ResponseCache.start] at done
  split at done
  · cases done
  · split at done
    · rename_i x filled
      cases done
      cases unused : c.keys.find? key with
      | some i =>
        simp only [ResponseCache.slotFor, unused]
        exact h
      | none =>
        -- A slot that was made just now has nothing in it.
        simp [ResponseCache.slotFor, unused, slot] at filled
    · cases done
      refine h.occupy shows' ?_
      intro same
      cases same

/-- A build that fails leaves its key vacant, unless it was evicted. -/
theorem Vacancies.abandon (h : c.Vacancies l) (shows' : Shows c p ((key, i) :: held)) :
    (c.abandon i).Vacancies (if p.keeps then key :: l else l) := by
  obtain ⟨map, builds⟩ := p
  obtain ⟨b, rest, stands, _, rfl⟩ := List.forall₂_cons_right_iff.mp shows'.builds
  have keeps : Plain.keeps ⟨map, b :: rest⟩ = !b.evicted := rfl
  rw [keeps]
  cases evicted : b.evicted with
  | false =>
    have there : c.keys.find? key = some i := stands.registered evicted
    refine h.vacate ?_ ((vacant_setSlot_self there stands.known _).mpr rfl) ?_
    · rintro ⟨j, there', empty⟩
      obtain rfl : i = j := Option.some.inj (there.symm.trans there')
      cases stands.slot.symm.trans empty
    · intro key' ne
      refine vacant_setSlot_other (fun there' => ?_) _
      exact ne (shows'.apart key' key i there' there)
  | true => exact h.congr fun key' => vacant_setSlot_other (stands.evicted evicted key') _

theorem Vacancies.finish (h : c.Vacancies l) (shows' : Shows c p ((key, i) :: held))
    (x : Snapshot) : (c.finish key i x).Vacancies l := by
  obtain ⟨b, rest, stands, _, same⟩ := List.forall₂_cons_right_iff.mp shows'.builds
  cases evicted : b.evicted with
  | false =>
    have there : c.keys.find? key = some i := stands.registered evicted
    have registered : c.registered key i = true := by
      simp [ResponseCache.registered, there]
    refine h.congr fun key' => ?_
    rw [ResponseCache.finish, registered]
    by_cases ofKey : key' = key
    · subst ofKey
      rw [vacant_setSlot_self there stands.known]
      constructor
      · intro same
        cases same
      · rintro ⟨j, there', empty⟩
        obtain rfl : i = j := Option.some.inj (there.symm.trans there')
        cases stands.slot.symm.trans empty
    · refine vacant_setSlot_other (fun there' => ?_) _
      exact ofKey (shows'.apart key' key i there' there)
  | true => exact h.congr fun key' => vacant_setSlot_other (stands.evicted evicted key') _

end ResponseCache

/-! ## Programs -/

open ResponseCache (Alike)

/-- What a build leaves vacant, if its closure does so as it is said. -/
theorem getOrBuild_vacancies (o : Outside τ) {held : List (String × Nat)} {key : String}
    {build : Scene ResponseCache τ →
      Except Blocked (Except ServeError Body × Scene ResponseCache τ)}
    {build' : Scene Plain τ → Except Blocked (Except ServeError Body × Scene Plain τ)}
    {inside : Scene Plain τ → List String → List String}
    (closure : ∀ held s s', Scene.Shows held s s' → Alike (Scene.Shows held) (build s) (build' s'))
    (leaves : ∀ held s s' l, Scene.Shows held s s' → s.cache.Vacancies l →
      ∀ a u, build s = .ok (a, u) → u.cache.Vacancies (inside s' l))
    {s u : Scene ResponseCache τ} {s' : Scene Plain τ} (h : Scene.Shows held s s')
    {l : List String} (vacancies : s.cache.Vacancies l) {r : Except ServeError Snapshot}
    (done : ResponseCache.getOrBuild o.host key build s = .ok (r, u)) :
    u.cache.Vacancies (Plain.vacancies key build' inside r s' l) := by
  have start := h.cache.start key
  simp only [ResponseCache.getOrBuild, freeze_host] at done
  simp only [Outside.host] at done
  cases idle : s'.cache.busy key with
  | true =>
    simp only [idle, if_true] at start
    simp only [start] at done
    cases done
  | false =>
    simp only [idle, Bool.false_eq_true, if_false] at start
    cases built : s'.cache.map.find? key with
    | some x =>
      simp only [built] at start
      obtain ⟨c', started, _⟩ := start
      have kept := vacancies.start h.cache started
      simp only [started] at done
      cases done
      simp only [Plain.vacancies, built]
      exact kept
    | none =>
      simp only [built] at start
      obtain ⟨i, c', started, shows'⟩ := start
      have taken := vacancies.start h.cache started
      have begun : Scene.Shows ((key, i) :: held) { s with cache := c' }
          { s' with cache := s'.cache.begin key } := ⟨shows', h.outside, h.replies⟩
      have ran := closure _ _ _ begun
      have left := leaves _ _ _ _ begun taken
      simp only [started] at done
      simp only [Plain.vacancies, built]
      generalize build { s with cache := c' } = run at ran left done
      generalize build' { s' with cache := s'.cache.begin key } = run' at ran ⊢
      cases ran with
      | blocked => cases done
      | @done a w w' after =>
        have inner := left a w rfl
        cases a with
        | error e =>
          cases done
          exact inner.abandon after.cache
        | ok body =>
          simp only at done
          generalize o.freeze body w.outside = answer at done
          obtain ⟨frozen, t⟩ := answer
          cases frozen with
          | error e =>
            cases done
            exact inner.abandon after.cache
          | ok x =>
            cases done
            exact inner.finish after.cache x

/-- A program leaves the keys vacant that it is said to. -/
theorem run_vacancies (o : Outside τ) (script : Script τ) {held : List (String × Nat)}
    {s u : Scene ResponseCache τ} {s' : Scene Plain τ} (h : Scene.Shows held s s')
    {l : List String} (vacancies : s.cache.Vacancies l) {r : Except ServeError Body}
    (ran : script.run o s = .ok (r, u)) : u.cache.Vacancies (script.vacancies o s' l) := by
  induction script generalizing held s s' l r u with
  | yield r =>
    cases ran
    exact vacancies
  | aside act next ih =>
    simp only [Script.run, h.outside] at ran
    have after : Scene.Shows held { s with outside := act s'.outside }
        { s' with outside := act s'.outside } := ⟨h.cache, rfl, h.replies⟩
    exact ih _ after vacancies ran
  | get key next ih =>
    simp only [Script.run, h.cache.get key] at ran
    simp only [Script.vacancies]
    generalize s'.cache.get key = got at ran ⊢
    cases got with
    | error b => cases ran
    | ok x => exact ih x (h.reply _) vacancies ran
  | insert key x next ih =>
    have called := h.cache.insert key x
    simp only [Script.run] at ran
    simp only [Script.vacancies]
    generalize done : s.cache.insert key x = answer at called ran
    generalize s'.cache.insert key x = answer' at called ⊢
    cases called with
    | blocked => cases ran
    | @done old c p shows' =>
      have after : Scene.Shows held { s with cache := c } { s' with cache := p } :=
        ⟨shows', h.outside, h.replies⟩
      exact ih old (after.reply _) (vacancies.insert h.cache done) ran
  | remove key next ih =>
    have called := h.cache.remove key
    simp only [Script.run] at ran
    simp only [Script.vacancies]
    generalize done : s.cache.remove key = answer at called ran
    generalize s'.cache.remove key = answer' at called ⊢
    cases called with
    | blocked => cases ran
    | @done old c p shows' =>
      have after : Scene.Shows held { s with cache := c } { s' with cache := p } :=
        ⟨shows', h.outside, h.replies⟩
      exact ih old (after.reply _) (vacancies.remove h.cache done) ran
  | clear next ih =>
    have after : Scene.Shows held { s with cache := s.cache.clear }
        { s' with cache := s'.cache.clear } := ⟨h.cache.clear, h.outside, h.replies⟩
    exact ih after (ResponseCache.vacancies_clear s.cache) ran
  | build key closure next ihClosure ih =>
    have called := getOrBuild_alike o key (fun _ _ _ h => run_alike o closure h) h
    simp only [Script.run] at ran
    simp only [Script.vacancies]
    generalize done : ResponseCache.getOrBuild o.host key (closure.run o) s = answer at called ran
    generalize Plain.getOrBuild o key (closure.runPlain o) s' = answer' at called ⊢
    cases called with
    | blocked => cases ran
    | @done built w w' after =>
      have left := getOrBuild_vacancies o (fun _ _ _ h => run_alike o closure h)
        (fun _ _ _ _ h vacancies _ _ ran => ihClosure h vacancies ran) h vacancies done
      exact ih built (after.reply _) left ran

/-! ## What the size counts -/

namespace ResponseCache

variable {c : ResponseCache} {p : Plain} {l : List String}

theorem Shows.get_idle (h : Shows c p []) (key : String) : c.get key = .ok (p.map.find? key) := by
  have ended : p.builds = [] := List.forall₂_nil_right_iff.mp h.builds
  rw [h.get key, Plain.get, Plain.busy, ended]
  rfl

theorem Shows.mem_keys (h : Shows c p []) (key : String) :
    (key ∈ c.keys.keys ∧ p.map.find? key = none ↔ c.Vacant key) ∧
    (p.map.find? key ≠ none → key ∈ c.keys.keys) := by
  have ended : p.builds = [] := List.forall₂_nil_right_iff.mp h.builds
  have idle : p.busy key = false := by
    rw [Plain.busy, ended]
    rfl
  rw [Table.mem_keys_iff]
  constructor
  · constructor
    · rintro ⟨⟨i, there⟩, unbuilt⟩
      refine ⟨i, there, ?_⟩
      rw [h.entry key i there, unbuilt, idle]
    · rintro ⟨i, there, empty⟩
      rw [h.entry key i there] at empty
      exact ⟨⟨i, there⟩, congrArg Slot.value empty⟩
  · intro built
    by_contra unused
    have new : c.keys.find? key = none := by
      rw [Option.eq_none_iff_forall_not_mem]
      exact fun i there => unused ⟨i, there⟩
    exact built (h.free key new).1

/-- When no build is in progress, a key that has a slot has a snapshot or is vacant. -/
theorem Shows.size_eq (h : Shows c p []) (vacancies : c.Vacancies l) :
    ∃ built : List String, built.Nodup ∧
      (∀ key, key ∈ built ↔ ∃ x, c.get key = .ok (some x)) ∧
      c.size = built.length + l.length := by
  have distinct : c.keys.keys.Nodup := c.keys.nodup
  have vacant : l.Perm (c.keys.keys.filter fun key => !(p.map.find? key).isSome) := by
    refine (List.perm_ext_iff_of_nodup vacancies.once (distinct.filter _)).mpr ?_
    intro key
    rw [vacancies.all key, ← (h.mem_keys key).1, List.mem_filter, Bool.not_eq_true',
      Option.isSome_eq_false_iff, Option.isNone_iff_eq_none]
  refine ⟨c.keys.keys.filter fun key => (p.map.find? key).isSome, distinct.filter _, ?_, ?_⟩
  · intro key
    rw [h.get_idle key, List.mem_filter, Option.isSome_iff_exists]
    constructor
    · rintro ⟨_, x, built⟩
      exact ⟨x, congrArg _ built⟩
    · rintro ⟨x, built⟩
      have built : p.map.find? key = some x := Except.ok.inj built
      exact ⟨(h.mem_keys key).2 (by simp [built]), x, built⟩
  · calc c.size
      _ = c.keys.keys.length := c.keys.size_eq_length_keys
      _ = _ := List.length_eq_length_filter_add _
      _ = _ := congrArg _ vacant.length_eq.symm

end ResponseCache

/-! ## Programs without failures -/

/-- A build that finds its snapshot answers, and any other does so after its closure. -/
theorem Plain.replies_getOrBuild {o : Outside τ} {key : String}
    {build : Scene Plain τ → Except Blocked (Except ServeError Body × Scene Plain τ)}
    {s u : Scene Plain τ} {r : Except ServeError Snapshot}
    (done : Plain.getOrBuild o key build s = .ok (r, u)) :
    (∃ x, s.cache.map.find? key = some x ∧ u.replies = s.replies) ∨
    (s.cache.map.find? key = none ∧ ∃ a w,
      build { s with cache := s.cache.begin key } = .ok (a, w) ∧ u.replies = w.replies) := by
  simp only [Plain.getOrBuild] at done
  split at done
  · cases done
  · split at done
    · rename_i x built
      cases done
      exact .inl ⟨x, built, rfl⟩
    · rename_i unbuilt
      right
      refine ⟨unbuilt, ?_⟩
      split at done
      · cases done
      · rename_i e w inner
        cases done
        exact ⟨_, _, inner, rfl⟩
      · rename_i body w inner
        split at done <;> cases done <;> exact ⟨_, _, inner, rfl⟩

/-- Answers are kept. -/
theorem Script.replies_kept (o : Outside τ) (script : Script τ) {s s' : Scene Plain τ}
    {r : Except ServeError Body} (ran : script.runPlain o s = .ok (r, s')) {reply : Reply}
    (mem : reply ∈ s.replies) : reply ∈ s'.replies := by
  induction script generalizing s s' r with
  | yield r =>
    cases ran
    exact mem
  | aside act next ih => exact ih _ ran mem
  | get key next ih =>
    simp only [Script.runPlain] at ran
    split at ran
    · cases ran
    · exact ih _ ran (List.mem_cons_of_mem _ mem)
  | insert key x next ih =>
    simp only [Script.runPlain] at ran
    split at ran
    · cases ran
    · exact ih _ ran (List.mem_cons_of_mem _ mem)
  | remove key next ih =>
    simp only [Script.runPlain] at ran
    split at ran
    · cases ran
    · exact ih _ ran (List.mem_cons_of_mem _ mem)
  | clear next ih => exact ih ran mem
  | build key closure next ihClosure ih =>
    simp only [Script.runPlain] at ran
    split at ran
    · cases ran
    · rename_i built u done
      refine ih _ ran (List.mem_cons_of_mem _ ?_)
      rcases Plain.replies_getOrBuild done with ⟨_, _, same⟩ | ⟨_, a, w, inner, same⟩
      · rw [same]
        exact mem
      · rw [same]
        exact ihClosure inner mem

/-- A key that is left vacant by a build was so before, or was left so by what happened during the
build, or is the key of the build, which failed. -/
theorem Plain.mem_vacancies {key key' : String}
    {build : Scene Plain τ → Except Blocked (Except ServeError Body × Scene Plain τ)}
    {inside : Scene Plain τ → List String → List String} {r : Except ServeError Snapshot}
    {s : Scene Plain τ} {l : List String} (mem : key' ∈ Plain.vacancies key build inside r s l) :
    key' ∈ l ∨ s.cache.map.find? key = none ∧
      (key' ∈ inside { s with cache := s.cache.begin key } (l.filter (· ≠ key)) ∨
        ∃ e, r = .error e) := by
  simp only [Plain.vacancies] at mem
  split at mem
  · exact .inl mem
  · rename_i unbuilt
    right
    refine ⟨unbuilt, ?_⟩
    cases r with
    | ok x => exact .inl mem
    | error e => exact .inr ⟨e, rfl⟩

/-- A key that is left vacant was so before, or a build failed. -/
theorem Script.mem_vacancies (o : Outside τ) (script : Script τ) {s s' : Scene Plain τ}
    {r : Except ServeError Body} (ran : script.runPlain o s = .ok (r, s')) {l : List String}
    {key : String} (mem : key ∈ script.vacancies o s l) :
    key ∈ l ∨ ∃ e, .built (.error e) ∈ s'.replies := by
  induction script generalizing s s' r l with
  | yield r => exact .inl mem
  | aside act next ih => exact ih _ ran mem
  | get key' next ih =>
    simp only [Script.runPlain] at ran
    simp only [Script.vacancies] at mem
    split at ran
    · cases ran
    · rename_i x got
      rw [got] at mem
      exact ih _ ran mem
  | insert key' x next ih =>
    simp only [Script.runPlain] at ran
    simp only [Script.vacancies] at mem
    split at ran
    · cases ran
    · rename_i old p done
      rw [done] at mem
      exact (ih _ ran mem).imp_left List.mem_of_mem_filter
  | remove key' next ih =>
    simp only [Script.runPlain] at ran
    simp only [Script.vacancies] at mem
    split at ran
    · cases ran
    · rename_i old p done
      rw [done] at mem
      exact (ih _ ran mem).imp_left List.mem_of_mem_filter
  | clear next ih =>
    rcases ih ran mem with none | failed
    · cases none
    · exact .inr failed
  | build key' closure next ihClosure ih =>
    simp only [Script.runPlain] at ran
    simp only [Script.vacancies] at mem
    split at ran
    · cases ran
    · rename_i built u done
      simp only [done] at mem
      have kept {reply : Reply} (mem : reply ∈ (u.reply (.built built)).replies) :=
        (next built).replies_kept o ran mem
      rcases ih _ ran mem with left | failed
      · rcases Plain.mem_vacancies left with before | ⟨unbuilt, inside | ⟨e, rfl⟩⟩
        · exact .inl before
        · rcases Plain.replies_getOrBuild done with ⟨x, found, _⟩ | ⟨_, a, w, inner, same⟩
          · cases unbuilt.symm.trans found
          · rcases ihClosure inner inside with before | ⟨e, failed⟩
            · exact .inl (List.mem_of_mem_filter before)
            · rw [← same] at failed
              exact .inr ⟨e, kept (List.mem_cons_of_mem _ failed)⟩
        · exact .inr ⟨e, kept List.mem_cons_self⟩
      · exact .inr failed

/-- **The size of a response cache counts its snapshots and the keys whose last build failed.**
Whatever program was run over an empty cache, and whatever its builds did to the cache: the size is
the number of keys with a snapshot together with that of the keys that were left vacant, and the
cache is empty if there is neither. A vacant key has no snapshot, and there is none if no build
failed. -/
theorem size_counts_vacancies (o : Outside τ) (script : Script τ) (t : τ)
    {r : Except ServeError Body} {s : Scene ResponseCache τ}
    (ran : script.run o ⟨.empty, t, []⟩ = .ok (r, s)) :
    ∃ built vacant : List String, vacant = script.vacancies o ⟨⟨.empty, []⟩, t, []⟩ [] ∧
      built.Nodup ∧ (∀ key, key ∈ built ↔ ∃ x, s.cache.get key = .ok (some x)) ∧
      vacant.Nodup ∧ (∀ key ∈ vacant, s.cache.get key = .ok none) ∧
      s.cache.size = built.length + vacant.length ∧
      (s.cache.isEmpty = true ↔ built = [] ∧ vacant = []) ∧
      ((∀ e, .built (.error e) ∉ s.replies) → vacant = []) := by
  have start : Scene.Shows [] (⟨.empty, t, []⟩ : Scene ResponseCache τ) ⟨⟨.empty, []⟩, t, []⟩ :=
    ⟨ResponseCache.shows_empty, rfl, rfl⟩
  have alike := run_alike o script start
  have vacancies := run_vacancies o script start ResponseCache.vacancies_empty ran
  rw [ran] at alike
  generalize plain : script.runPlain o ⟨⟨.empty, []⟩, t, []⟩ = r' at alike
  obtain _ | ⟨a, after⟩ := alike
  rename_i s'
  obtain ⟨built, once, all, size⟩ := after.cache.size_eq vacancies
  refine ⟨built, _, rfl, once, all, vacancies.once, ?_, size, ?_, ?_⟩
  · intro key mem
    rw [after.cache.get_idle key, ((after.cache.mem_keys key).1.mpr ((vacancies.all key).mp mem)).2]
  · have none : s.cache.isEmpty = true ↔ s.cache.size = 0 := List.isEmpty_iff_length_eq_zero
    rw [none, size, Nat.add_eq_zero_iff, List.length_eq_zero_iff, List.length_eq_zero_iff]
  · intro succeeded
    refine List.eq_nil_iff_forall_not_mem.mpr fun key mem => ?_
    rcases script.mem_vacancies o plain mem with before | ⟨e, failed⟩
    · cases before
    · rw [← after.replies] at failed
      exact succeeded e failed

/-- Nothing to act on besides the cache: events go nowhere, and all snapshots have one
identifier. -/
def Outside.quiet : Outside Unit where
  report _ t := t
  freeze body t :=
    match body with
    | .fresh response => (Snapshot.freeze default response, t)
    | .replayed snapshot => (.ok snapshot, t)

/-- The program that asks for one snapshot, which is built of what is given. -/
def Script.single (key : String) (r : Except ServeError Body) : Script Unit :=
  .build key (.yield r) fun _ => .yield r

/-- A build that succeeds counts as its snapshot. -/
theorem built_counts : ∃ (r : Except ServeError Body) (s : Scene ResponseCache Unit)
    (built : List String),
    (Script.single "k" (.ok (.replayed default))).run .quiet ⟨.empty, (), []⟩ = .ok (r, s) ∧
    (∀ key, key ∈ built ↔ ∃ x, s.cache.get key = .ok (some x)) ∧
    s.cache.size = built.length := by
  obtain ⟨r, s, ran, replies⟩ : ∃ (r : Except ServeError Body) (s : Scene ResponseCache Unit),
      (Script.single "k" (.ok (.replayed default))).run .quiet ⟨.empty, (), []⟩ = .ok (r, s) ∧
      s.replies = [.built (.ok default)] :=
    ⟨_, _, rfl, rfl⟩
  obtain ⟨built, vacant, _, _, all, _, _, size, _, succeeded⟩ := size_counts_vacancies _ _ _ ran
  have none : vacant = [] := succeeded fun e failed => by simp [replies] at failed
  rw [none, List.length_nil, Nat.add_zero] at size
  exact ⟨r, s, built, ran, all, size⟩

/-- A build that fails counts, though no key has a snapshot. -/
theorem failed_counts : ∃ (r : Except ServeError Body) (s : Scene ResponseCache Unit),
    (Script.single "k" (.error (.file (.notFound "k")))).run .quiet ⟨.empty, (), []⟩ =
      .ok (r, s) ∧
    s.replies = [.built (.error (.file (.notFound "k")))] ∧
    (∀ key, s.cache.get key = .ok none) ∧ s.cache.size = 1 ∧ s.cache.isEmpty = false := by
  obtain ⟨r, s, ran, replies, keys, slot, size, empty⟩ : ∃ (r : Except ServeError Body)
      (s : Scene ResponseCache Unit),
      (Script.single "k" (.error (.file (.notFound "k")))).run .quiet ⟨.empty, (), []⟩ =
        .ok (r, s) ∧
      s.replies = [.built (.error (.file (.notFound "k")))] ∧
      s.cache.keys = Table.insert .empty "k" 0 ∧ s.cache.slot 0 = ⟨none, false⟩ ∧
      s.cache.size = 1 ∧ s.cache.isEmpty = false :=
    ⟨_, _, rfl, rfl, rfl, rfl, rfl, rfl⟩
  refine ⟨r, s, ran, replies, ?_, size, empty⟩
  intro key
  rw [ResponseCache.get, keys, Table.find?_insert]
  by_cases same : "k" = key
  · rw [if_pos same]
    simp [slot]
  · rw [if_neg same]
    rfl

end Docroot
