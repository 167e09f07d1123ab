import Docroot.Proofs.Account

/-!
The registry of a file system.

* `Sound`: every path is as its file system makes it, and is registered under no key but its own.
  Every effect keeps this, so every reachable server has it.
* A path that is handed out is registered then, and stays so until its key is invalidated. From
  then on it is never registered again, since new paths have new numbers.
* `one_path_per_key`: so two paths that are handed out under one key are the same exactly if the
  key was not invalidated in between.
-/

namespace Docroot

namespace Table

variable {κ α : Type} [DecidableEq κ]

theorem lookup_of_mem {k : κ} {v : α} {l : List (κ × α)} (distinct : (l.map Prod.fst).Nodup)
    (mem : (k, v) ∈ l) : lookup k l = some v := by
  induction l with
  | nil => cases mem
  | cons p rest ih =>
    obtain ⟨k', v'⟩ := p
    obtain ⟨fresh, distinct⟩ := List.nodup_cons.mp distinct
    rcases List.mem_cons.mp mem with same | later
    · cases same
      simp [lookup]
    · have other : k' ≠ k := by
        rintro rfl
        exact fresh (List.mem_map.mpr ⟨_, later, rfl⟩)
      simp [lookup, other, ih distinct later]

end Table

namespace Server

/-- A path as its file system makes it. -/
structure Made (s : Server) (n : PathNode) : Prop where
  system : n.system < s.systems.size
  key : ∃ raw, n.key = Key.normalize raw n.isFolder
  diskPath : n.diskPath = Key.below (s.system n.system).root n.key

structure Sound (s : Server) : Prop where
  made : ∀ p, p < s.nodes.size → s.Made (s.node p)
  registered : ∀ v key p, s.lookup v key = some p →
    p < s.nodes.size ∧ (s.node p).system = v ∧ (s.node p).key = key
  listed : ∀ p l q, (s.node p).listing = some l → q ∈ l →
    q < s.nodes.size ∧ (s.node q).system = (s.node p).system
  cache : ∀ v, v < s.systems.size → (s.system v).cache < s.caches.size
  tree : s.disk.IsTree

variable {s t : Server} {P : Effect → Prop}

theorem known_apply {e : Effect} {p : Nat} (known : p < (e.apply s).nodes.size) :
    p < s.nodes.size ∨ ∃ v key isFolder, e = .register v key isFolder ∧ p = s.nodes.size := by
  cases e with
  | register v key isFolder =>
    rcases Nat.lt_succ_iff_lt_or_eq.mp (by simpa [Effect.apply, setSystem] using known) with
      old | new
    · exact .inl old
    · exact .inr ⟨v, key, isFolder, rfl, new⟩
  | _ =>
    exact .inl (by
      simpa [Effect.apply, setNode, setSystem, setCache, report, fillCache] using known)

theorem node_keep (r : Nat) (l : List Nat) (p : Nat) :
    (r = p ∧ p < s.nodes.size ∧
      (Effect.apply (.keep r l) s).node p = { s.node p with listing := some l }) ∨
    (Effect.apply (.keep r l) s).node p = s.node p := by
  simp only [Effect.apply, node_setNode]
  split
  · rename_i this
    obtain ⟨rfl, known⟩ := this
    exact .inl ⟨rfl, known, rfl⟩
  · exact .inr rfl

/-- Whether a path is there changes only where it is confirmed. -/
theorem present_apply {e : Effect} {p : Nat} (known : p < s.nodes.size) (other : e ≠ .confirm p) :
    ((e.apply s).node p).present = (s.node p).present := by
  cases e with
  | register v key isFolder => rw [Effect.node_register, if_neg (Nat.ne_of_lt known)]
  | keep r l =>
    rcases node_keep (s := s) r l p with ⟨_, _, now⟩ | same
    · rw [now]
    · rw [same]
  | confirm r =>
    simp only [Effect.apply, node_setNode]
    split
    · rename_i same
      exact absurd (congrArg Effect.confirm same.1) other
    · rfl
  | _ => rfl

/-- Only keeping a listing gives a path a listing. -/
theorem listed_before {e : Effect} {p : Nat} (kind : ∀ p l, e ≠ .keep p l) {l : List Nat}
    (listed : ((e.apply s).node p).listing = some l) :
    p < s.nodes.size ∧ (s.node p).listing = some l := by
  have before : (s.node p).listing = some l := by
    cases e with
    | keep p l => exact absurd rfl (kind p l)
    | register v key isFolder =>
      rw [Effect.node_register] at listed
      split at listed
      · cases listed
      · exact listed
    | confirm q =>
      simp only [Effect.apply, node_setNode] at listed
      split at listed
      · rename_i same
        rw [← same.1]
        exact listed
      · exact listed
    | _ => exact listed
  exact ⟨s.known_of_listing before, before⟩

theorem Made.apply {e : Effect} {m n : PathNode} (made : s.Made m) (became : m.Became n) :
    (e.apply s).Made n where
  system := by
    rw [became.system]
    exact Nat.lt_of_lt_of_le made.system (e.size_systems_apply s)
  key := by
    rw [became.key, became.isFolder]
    exact made.key
  diskPath := by
    rw [became.diskPath, became.key, became.system, (e.system_kept made.system).1]
    exact made.diskPath

/-- A path that is as its file system makes it stays so. -/
theorem Made.goes {n : PathNode} (made : s.Made n) (h : Goes P s t) : t.Made n :=
  h.keeps (I := fun t => t.Made n) (fun _ _ _ _ made => made.apply (.refl n)) made

theorem Sound.apply (sound : s.Sound) {e : Effect} (lawful : e.Lawful s) : (e.apply s).Sound where
  made p known := by
    rcases known_apply known with old | ⟨v, key, isFolder, rfl, rfl⟩
    · exact (sound.made p old).apply (Effect.node_became lawful old)
    · obtain ⟨there, _, shape⟩ := lawful
      have made : s.Made (s.makeNode v key isFolder) := ⟨there, shape, rfl⟩
      rw [Effect.node_register, if_pos rfl]
      exact made.apply (.refl _)
  registered v key p there := by
    have old (there : s.lookup v key = some p) : p < (e.apply s).nodes.size ∧
        ((e.apply s).node p).system = v ∧ ((e.apply s).node p).key = key := by
      obtain ⟨known, system, same⟩ := sound.registered v key p there
      have became := Effect.node_became lawful known
      exact ⟨Nat.lt_of_lt_of_le known (e.size_nodes_apply s), became.system.trans system,
        became.key.trans same⟩
    rw [Effect.lookup_apply lawful] at there
    cases e with
    | register w k isFolder =>
      by_cases new : w = v ∧ k = key
      · obtain ⟨rfl, rfl⟩ := new
        simp only [and_self, if_true, Option.some.injEq] at there
        subst there
        rw [Effect.node_register, if_pos rfl]
        exact ⟨by simp [Effect.apply, setSystem], rfl, rfl⟩
      · exact old (by simpa [new] using there)
    | forget w k =>
      by_cases gone : w = v ∧ k = key
      · simp [gone] at there
      · exact old (by simpa [gone] using there)
    | _ => exact old there
  listed p l q listing mem := by
    have old (known : p < s.nodes.size) (before : (s.node p).listing = some l) :
        q < (e.apply s).nodes.size ∧ ((e.apply s).node q).system = ((e.apply s).node p).system := by
      obtain ⟨known', same⟩ := sound.listed p l q before mem
      rw [(Effect.node_became lawful known).system, (Effect.node_became lawful known').system]
      exact ⟨Nat.lt_of_lt_of_le known' (e.size_nodes_apply s), same⟩
    by_cases kind : ∀ p l, e ≠ .keep p l
    · obtain ⟨known, before⟩ := listed_before kind listing
      exact old known before
    · obtain ⟨r, l', rfl⟩ : ∃ r l', e = .keep r l' := by
        simpa using kind
      rcases node_keep (s := s) r l' p with ⟨rfl, known, now⟩ | same
      · rw [now] at listing ⊢
        cases listing
        obtain ⟨_, _, _, _, _, there⟩ := lawful.2 q mem
        obtain ⟨known', system, _⟩ := sound.registered _ _ _ there
        rw [(Effect.node_became lawful known').system]
        exact ⟨Nat.lt_of_lt_of_le known' (Effect.size_nodes_apply _ s), system⟩
      · rw [same] at listing
        exact old (s.known_of_listing listing) listing
  cache v known := by
    by_cases old : v < s.systems.size
    · rw [(e.system_kept old).2.1]
      exact Nat.lt_of_lt_of_le (sound.cache v old) (e.size_caches_apply s)
    · cases e with
      | mount f =>
        obtain rfl : v = s.systems.size := by
          simp only [Effect.apply, Array.size_push] at known
          omega
        simp only [Effect.apply, system, getD_push, if_true]
        exact lawful.2
      | _ =>
        refine absurd ?_ old
        simpa [Effect.apply, setNode, setSystem, setCache, report, fillCache] using known
  tree := by
    rw [e.disk_apply]
    cases e with
    | alter d => exact lawful sound.tree
    | _ => exact sound.tree

theorem Sound.goes (sound : s.Sound) (h : Goes P s t) : t.Sound :=
  h.keeps (fun _ _ _ lawful sound => sound.apply lawful) sound

theorem start_sound (d : Tree) : (start d).Sound where
  made p known := absurd known (Nat.not_lt_zero p)
  registered v key p there := by
    rw [lookup_beyond _ (Nat.zero_le v)] at there
    cases there
  listed p l q listing := by
    rw [node_beyond _ (Nat.zero_le p)] at listing
    cases listing
  cache _ known := absurd known (Nat.not_lt_zero _)
  tree := d.2

theorem run_goes_any [MediaTypes] {calls : List Call} (ran : s.run calls = some t) :
    Goes (fun _ => True) s t :=
  run_goes ran fun _ _ _ _ => trivial

theorem Reachable.sound [MediaTypes] (reach : Reachable s) : s.Sound := by
  obtain ⟨d, calls, ran⟩ := reach
  exact (start_sound d).goes (run_goes_any ran)

/-- Under each key a file system has one path, and that path has this key. -/
theorem Sound.of_mem (sound : s.Sound) {v p : Nat} {key : String}
    (mem : (key, p) ∈ (s.system v).registry.pairs) :
    s.lookup v key = some p ∧ p < s.nodes.size ∧ (s.node p).system = v ∧ (s.node p).key = key := by
  have there := Table.lookup_of_mem (s.system v).registry.nodup mem
  exact ⟨there, sound.registered v key p there⟩

/-! ## Paths that are handed out -/

theorem lookup_resolve {v : Nat} (known : v < s.systems.size) (parent : Nat) (raw : String) :
    ∃ key, (s.resolve v parent raw).2.lookup v key = some (s.resolve v parent raw).1 := by
  simp only [resolve]
  split
  · exact ⟨_, lookup_intern known _ _⟩
  · split
    · exact ⟨_, lookup_intern known _ _⟩
    · split
      · exact ⟨_, ‹_›⟩
      · split
        · exact ⟨_, ‹_›⟩
        · split <;> exact ⟨_, lookup_intern known _ _⟩

/-- What a listing holds that is made on the way is registered in the end. -/
theorem Goes.listed (h : Goes P s t) (kept : ∀ v key, ¬ P (.forget v key)) {f : Nat} {l : List Nat}
    (new : (s.node f).listing = none) (made : (t.node f).listing = some l) :
    t.Registered (t.node f).system l := by
  induction h with
  | stay => simp [new] at made
  | @step u e before kind lawful ih =>
    have still (same : (e.apply u).node f = u.node f) :
        (e.apply u).Registered ((e.apply u).node f).system l := by
      rw [same] at made ⊢
      intro q mem
      obtain ⟨key, there⟩ := ih made q mem
      exact ⟨key, (Goes.one (P := P) e kind lawful).lookup_kept (kept _ _) there⟩
    cases e with
    | keep p listing =>
      by_cases this : p = f ∧ p < u.nodes.size
      · obtain ⟨rfl, known⟩ := this
        have now : (Effect.apply (.keep p listing) u).node p =
            { u.node p with listing := some listing } := by
          simp [Effect.apply, node_setNode, known]
        rw [now] at made ⊢
        cases made
        intro q mem
        obtain ⟨_, _, _, _, _, there⟩ := lawful.2 q mem
        exact ⟨_, there⟩
      · exact still (by simp [Effect.apply, node_setNode, this])
    | confirm p =>
      by_cases this : p = f ∧ p < u.nodes.size
      · obtain ⟨rfl, known⟩ := this
        have now : (Effect.apply (.confirm p) u).node p = { u.node p with present := true } := by
          simp [Effect.apply, node_setNode, known]
        rw [now] at made ⊢
        exact ih made
      · exact still (by simp [Effect.apply, node_setNode, this])
    | register v key isFolder =>
      by_cases this : f = u.nodes.size
      · simp [Effect.node_register, this, makeNode] at made
      · exact still (by simp [Effect.node_register, this])
    | _ => exact still rfl

/-- The paths that a call hands out: the one it resolves, or those of a folder that is listed for
the first time during the call. -/
inductive HandsOut (s s' : Server) : Call → Answer → Nat → Prop
  | root (v p : Nat) : HandsOut s s' (.root v) (.path p) p
  | get (v : Nat) (raw : String) (p : Nat) : HandsOut s s' (.get v raw) (.path p) p
  | resolve (v parent : Nat) (raw : String) (p : Nat) :
      HandsOut s s' (.resolve v parent raw) (.path p) p
  | listed (c : Call) (a : Answer) {folder p : Nat} {l : List Nat}
      (new : (s.node folder).listing = none) (made : (s'.node folder).listing = some l)
      (mem : p ∈ l) : HandsOut s s' c a p

theorem perform_eq [MediaTypes] {c : Call} {a : Answer} (h : s.perform c = some (a, t)) :
    s.knows c = true ∧ s.carryOut c = some (a, t) := by
  simp only [perform] at h
  split at h
  · exact ⟨‹_›, h⟩
  · cases h

/-- Only an invalidation takes keys out of a registry. -/
theorem may_forget {c : Call} {v : Nat} {key : String} (kind : c.may (.forget v key)) :
    ∃ p, c = .invalidate v p := by
  cases c with
  | invalidate w p =>
    obtain ⟨_, same⟩ := kind
    cases same
    exact ⟨p, rfl⟩
  | _ => simp [Call.may, Effect.Looks, Effect.Creates] at kind

theorem invalidate_eq (s : Server) (v p : Nat) :
    ((s.invalidate v p).1 = true ↔ s.lookup v (s.node p).key = some p) ∧
    (s.invalidate v p).2.nodes = s.nodes ∧
    ∀ w key, (s.invalidate v p).2.lookup w key =
      if (s.invalidate v p).1 = true ∧ w = v ∧ key = (s.node p).key then none
      else s.lookup w key := by
  simp only [invalidate]
  split
  · rename_i there
    refine ⟨by simp [there], rfl, fun w key => ?_⟩
    have gone := Effect.lookup_apply (s := s) (e := .forget v (s.node p).key) trivial w key
    refine gone.trans ?_
    simp only [true_and, eq_comm]
  · rename_i other
    exact ⟨by simp [other], rfl, by simp⟩

section

variable [MediaTypes]

theorem perform_invalidate {v p : Nat} {a : Answer}
    (h : s.perform (.invalidate v p) = some (a, t)) :
    a = .flag (s.invalidate v p).1 ∧ t = (s.invalidate v p).2 := by
  obtain ⟨_, done⟩ := perform_eq h
  cases done
  exact ⟨rfl, rfl⟩

theorem HandsOut.registered (sound : s.Sound) {c : Call} {a : Answer} {p : Nat}
    (h : s.perform c = some (a, t)) (out : HandsOut s t c a p) :
    t.lookup (t.node p).system (t.node p).key = some p := by
  have found : ∃ v key, t.lookup v key = some p := by
    obtain ⟨known, done⟩ := perform_eq h
    cases out with
    | root v p =>
      cases done
      exact ⟨v, _, lookup_intern (by simpa [knows] using known) _ _⟩
    | get v raw p =>
      cases done
      have known : v < s.systems.size := by simpa [knows] using known
      exact ⟨v, lookup_resolve (Nat.lt_of_lt_of_le known (root_goes known).size_systems) _ _⟩
    | resolve v parent raw p =>
      cases done
      simp only [knows, Bool.and_eq_true, decide_eq_true_eq] at known
      exact ⟨v, lookup_resolve known.1 _ _⟩
    | listed c a new made mem =>
      by_cases forgets : ∃ v key, c.may (.forget v key)
      · obtain ⟨v, key, kind⟩ := forgets
        obtain ⟨q, rfl⟩ := may_forget kind
        obtain ⟨_, rfl⟩ := perform_invalidate h
        rw [node, (invalidate_eq s v q).2.1, ← node, new] at made
        cases made
      · exact ⟨_, (perform_goes h).listed (fun v key kind => forgets ⟨v, key, kind⟩) new made
          p mem⟩
  obtain ⟨v, key, there⟩ := found
  obtain ⟨_, rfl, rfl⟩ := (sound.goes (perform_goes h)).registered v key p there
  exact there

/-! ## Between two calls -/

/-- A call of the run takes a key of a file system out of its registry. -/
def Invalidated (s : Server) (calls : List Call) (v : Nat) (key : String) : Prop :=
  ∃ before p after t t', calls = before ++ .invalidate v p :: after ∧ s.run before = some t ∧
    t.perform (.invalidate v p) = some (.flag true, t') ∧ (t.node p).key = key

theorem run_cons {c : Call} {rest : List Call} (ran : s.run (c :: rest) = some t) :
    ∃ a u, s.perform c = some (a, u) ∧ u.run rest = some t := by
  obtain ⟨⟨a, u⟩, first, ran⟩ := Option.bind_eq_some_iff.mp ran
  exact ⟨a, u, first, ran⟩

theorem run_cons_of {c : Call} {a : Answer} {rest : List Call}
    (first : s.perform c = some (a, t)) : s.run (c :: rest) = t.run rest := by
  simp [run, first]

theorem perform_lookup {c : Call} {a : Answer} (h : s.perform c = some (a, t)) {v p : Nat}
    {key : String} (there : s.lookup v key = some p) :
    t.lookup v key = some p ∨
    ∃ q, c = .invalidate v q ∧ a = .flag true ∧ (s.node q).key = key := by
  by_cases forgets : c.may (.forget v key)
  · obtain ⟨q, rfl⟩ := may_forget forgets
    obtain ⟨rfl, rfl⟩ := perform_invalidate h
    rw [(invalidate_eq s v q).2.2]
    split
    · rename_i gone
      exact .inr ⟨q, rfl, by rw [gone.1], gone.2.2.symm⟩
    · exact .inl there
  · exact .inl ((perform_goes h).lookup_kept forgets there)

theorem run_lookup {calls : List Call} (ran : s.run calls = some t) {v p : Nat} {key : String}
    (there : s.lookup v key = some p) : t.lookup v key = some p ∨ Invalidated s calls v key := by
  induction calls generalizing s with
  | nil =>
    cases ran
    exact .inl there
  | cons c rest ih =>
    obtain ⟨a, u, first, ran⟩ := run_cons ran
    rcases perform_lookup first there with still | ⟨q, rfl, rfl, same⟩
    · rcases ih ran still with still | ⟨before, q, after, t, t', rfl, led, gone, same⟩
      · exact .inl still
      · exact .inr ⟨c :: before, q, after, t, t', rfl, (run_cons_of first).trans led, gone, same⟩
    · exact .inr ⟨[], q, rest, s, u, rfl, rfl, first, same⟩

end

/-- A path that is not registered will never be: keys are bound to new paths only. -/
theorem Goes.unregistered (h : Goes P s t) {p : Nat} (old : p < s.nodes.size) {v : Nat}
    {key : String} (gone : s.lookup v key ≠ some p) : t.lookup v key ≠ some p := by
  induction h with
  | stay => exact gone
  | @step u e before _ lawful ih =>
    rw [Effect.lookup_apply lawful]
    have older : u.nodes.size ≠ p :=
      Nat.ne_of_gt (Nat.lt_of_lt_of_le old before.size_nodes)
    cases e with
    | register w k isFolder =>
      dsimp only
      split
      · simpa using older
      · exact ih
    | forget w k =>
      dsimp only
      split
      · intro there
        cases there
      · exact ih
    | _ => exact ih

section

variable [MediaTypes]

theorem run_append {xs ys : List Call} (ran : s.run (xs ++ ys) = some t) :
    ∃ u, s.run xs = some u ∧ u.run ys = some t := by
  induction xs generalizing s with
  | nil => exact ⟨s, rfl, ran⟩
  | cons c rest ih =>
    obtain ⟨a, u, first, ran⟩ := run_cons ran
    obtain ⟨w, led, ran⟩ := ih ran
    exact ⟨w, (run_cons_of first).trans led, ran⟩

theorem run_append_of {xs ys : List Call} {u : Server} (led : s.run xs = some u) :
    s.run (xs ++ ys) = u.run ys := by
  induction xs generalizing s with
  | nil =>
    cases led
    rfl
  | cons c rest ih =>
    obtain ⟨a, w, first, led⟩ := run_cons led
    exact (run_cons_of first).trans (ih led)

/-- One more call behind a run. -/
theorem run_snoc_of {calls : List Call} {c : Call} {a : Answer} {u : Server}
    (led : s.run calls = some t) (next : t.perform c = some (a, u)) :
    s.run (calls ++ [c]) = some u :=
  (run_append_of led).trans (run_cons_of next)

theorem Reachable.perform {c : Call} {a : Answer} (reach : Reachable s)
    (h : s.perform c = some (a, t)) : Reachable t := by
  obtain ⟨d, calls, ran⟩ := reach
  exact ⟨d, _, run_snoc_of ran h⟩

theorem lookup_invalidated {v q : Nat} (h : s.perform (.invalidate v q) = some (.flag true, t)) :
    t.lookup v (s.node q).key = none := by
  obtain ⟨done, rfl⟩ := perform_invalidate h
  rw [(invalidate_eq s v q).2.2, if_pos ⟨by simpa using done.symm, rfl, rfl⟩]

theorem Invalidated.unregistered {calls : List Call} {v : Nat} {key : String}
    (gone : s.Invalidated calls v key) (ran : s.run calls = some t) {p : Nat}
    (old : p < s.nodes.size) : t.lookup v key ≠ some p := by
  obtain ⟨before, q, after, u, u', rfl, led, removed, rfl⟩ := gone
  obtain ⟨w, led', ran⟩ := run_append ran
  obtain rfl : u = w := Option.some.inj (led.symm.trans led')
  obtain ⟨a, w, removed', ran⟩ := run_cons ran
  obtain ⟨_, rfl⟩ : Answer.flag true = a ∧ u' = w := by simpa [removed] using removed'
  have older : p < u'.nodes.size := Nat.lt_of_lt_of_le old
    (Nat.le_trans (run_goes_any led).size_nodes (perform_goes removed).size_nodes)
  exact (run_goes_any ran).unregistered older (by simp [lookup_invalidated removed])

/-- Two paths that are handed out under one key are the same unless the key was invalidated in
between. -/
theorem HandsOut.eq_iff {s₀ s₁ s₂ s₃ : Server} (sound : s₀.Sound) {c₁ c₂ : Call} {a₁ a₂ : Answer}
    {calls : List Call} {p q : Nat} (first : s₀.perform c₁ = some (a₁, s₁))
    (ran : s₁.run calls = some s₂) (second : s₂.perform c₂ = some (a₂, s₃))
    (out₁ : HandsOut s₀ s₁ c₁ a₁ p) (out₂ : HandsOut s₂ s₃ c₂ a₂ q)
    (system : (s₁.node p).system = (s₃.node q).system)
    (key : (s₁.node p).key = (s₃.node q).key) :
    p = q ↔ ¬ s₁.Invalidated calls (s₃.node q).system (s₃.node q).key := by
  have there := out₁.registered sound first
  have sound₁ := sound.goes (perform_goes first)
  obtain ⟨known, _⟩ := sound₁.registered _ _ _ there
  have there' := out₂.registered (sound₁.goes (run_goes_any ran)) second
  rw [system, key] at there
  constructor
  · rintro rfl gone
    have known₂ := Nat.lt_of_lt_of_le known (run_goes_any ran).size_nodes
    exact (perform_goes second).unregistered known₂ (gone.unregistered ran known) there'
  · intro kept
    rcases run_lookup ran there with still | gone
    · rcases perform_lookup second still with still | ⟨r, rfl, rfl, same⟩
      · exact Option.some.inj (still.symm.trans there')
      · rw [← same, lookup_invalidated second] at there'
        cases there'
    · exact absurd gone kept

/-- **One path for each key.** However a server came about, the registries of its file systems hold
one path for each key, which has that key. Of the paths that calls hand out, from then on and
whatever happens meanwhile, two under one key of a file system are the same exactly if no call in
between took the key out of the registry; two from the same call are always the same. An
invalidation succeeds exactly for the path that is registered under its key, and takes out this
key of this file system and no other. -/
theorem one_path_per_key {s₀ : Server} (reach : Reachable s₀) :
    (∀ v key p q, (key, p) ∈ (s₀.system v).registry.pairs →
      (key, q) ∈ (s₀.system v).registry.pairs → p = q) ∧
    (∀ v key p, (key, p) ∈ (s₀.system v).registry.pairs →
      p < s₀.nodes.size ∧ (s₀.node p).system = v ∧ (s₀.node p).key = key) ∧
    (∀ c₁ a₁ s₁ calls s₂ c₂ a₂ s₃ p q, s₀.perform c₁ = some (a₁, s₁) →
      s₁.run calls = some s₂ → s₂.perform c₂ = some (a₂, s₃) →
      HandsOut s₀ s₁ c₁ a₁ p → HandsOut s₂ s₃ c₂ a₂ q →
      (s₁.node p).system = (s₃.node q).system → (s₁.node p).key = (s₃.node q).key →
      (p = q ↔ ¬ s₁.Invalidated calls (s₃.node q).system (s₃.node q).key)) ∧
    (∀ c a s₁ p q, s₀.perform c = some (a, s₁) → HandsOut s₀ s₁ c a p → HandsOut s₀ s₁ c a q →
      (s₁.node p).system = (s₁.node q).system → (s₁.node p).key = (s₁.node q).key → p = q) ∧
    (∀ v p a s₁, s₀.perform (.invalidate v p) = some (a, s₁) →
      ∃ removed, a = .flag removed ∧
        (removed = true ↔ s₀.lookup v (s₀.node p).key = some p) ∧
        ∀ w key, s₁.lookup w key =
          if removed = true ∧ w = v ∧ key = (s₀.node p).key then none else s₀.lookup w key) := by
  have sound := reach.sound
  refine ⟨fun v key p q mem mem' => ?_, fun v key p mem => (sound.of_mem mem).2,
    fun c₁ a₁ s₁ calls s₂ c₂ a₂ s₃ p q first ran second out₁ out₂ =>
      out₁.eq_iff sound first ran second out₂,
    fun c a s₁ p q h out out' system key => ?_, fun v p a s₁ h => ?_⟩
  · exact Option.some.inj ((sound.of_mem mem).1.symm.trans (sound.of_mem mem').1)
  · have there := out.registered sound h
    rw [system, key, out'.registered sound h] at there
    exact (Option.some.inj there).symm
  · obtain ⟨rfl, rfl⟩ := perform_invalidate h
    obtain ⟨iff, _, rest⟩ := invalidate_eq s₀ v p
    exact ⟨_, rfl, iff, rest⟩

end

attribute [local instance] MediaTypes.familiar

/-- The root of a file system is another path once it was invalidated. -/
theorem root_anew : ∃ s₀ s₁ s₂ s₃, Reachable s₀ ∧ s₀.perform (.root 0) = some (.path 0, s₁) ∧
    s₁.run [.invalidate 0 0] = some s₂ ∧ s₂.perform (.root 0) = some (.path 1, s₃) ∧
    s₁.Invalidated [.invalidate 0 0] 0 "" := by
  obtain ⟨s₀, reach, s₁, s₂, s₃, first, ran, second, system, key, system', key'⟩ :
      ∃ s₀, Reachable s₀ ∧ ∃ s₁ s₂ s₃, s₀.perform (.root 0) = some (.path 0, s₁) ∧
        s₁.run [.invalidate 0 0] = some s₂ ∧ s₂.perform (.root 0) = some (.path 1, s₃) ∧
        (s₁.node 0).system = 0 ∧ (s₁.node 0).key = "" ∧ (s₃.node 1).system = 0 ∧
        (s₃.node 1).key = "" :=
    ⟨((start .bare).mount "/" none {}).2, ⟨.bare, [.mount "/" none {}], rfl⟩, _, _, _, rfl, rfl,
      rfl, rfl, rfl, rfl, rfl⟩
  refine ⟨s₀, s₁, s₂, s₃, reach, first, ran, second, Classical.byContradiction fun kept => ?_⟩
  have iff := (one_path_per_key reach).2.2.1 _ _ _ _ _ _ _ _ 0 1 first ran second (.root 0 0)
    (.root 0 1) (system.trans system'.symm) (key.trans key'.symm)
  rw [system', key'] at iff
  exact Nat.zero_ne_one (iff.mpr kept)

end Server

end Docroot
