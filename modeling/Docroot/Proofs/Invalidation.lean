import Docroot.Proofs.Resolution

/-!
What becomes of a path that was invalidated.

Two things hand out paths: the registries, and the listings, which are made once and keep the paths
they were made of. A registry never gives an invalidated path again, and a listing that is made
later does not hold it, since it is made of registered paths. So a text leads to an invalidated path
only through a listing from before, and such a listing is read when a name is looked up in a folder.
Whatever else has the key is new, and shows the disk of the moment in which it was made.
-/

namespace Docroot

/-- The calls that lead from a text to a path of the file system `v`. -/
inductive Call.Seeks (v : Nat) : Call → Prop
  | get (raw : String) : Seeks v (.get v raw)
  | resolve (parent : Nat) (raw : String) : Seeks v (.resolve v parent raw)
  | resolveWith (parent : Nat) (name : String) (exts : ExtensionSet) :
      Seeks v (.resolveWith v parent name exts)

namespace Server

variable {P : Effect → Prop} {s t u : Server} {c : Call} {a : Answer} {calls : List Call}
  {v p q : Nat}

/-! ## Paths of before -/

/-- A path that is still in use: it is registered or yet to be made. -/
def InUse (s : Server) (q : Nat) : Prop :=
  s.nodes.size ≤ q ∨ ∃ v key, s.lookup v key = some q

/-- A listing that was made before holds the path: that of the folder in which the call looks for a
name. -/
def Holds (s : Server) : Call → Nat → Prop
  | .resolveWith _ parent _ _, q => ∃ l, (s.node parent).listing = some l ∧ q ∈ l
  | _, _ => False

theorem Goes.inUse_of_registered (h : Goes P s t) {key : String}
    (there : t.lookup v key = some q) : s.InUse q := by
  by_cases old : q < s.nodes.size
  · right
    refine ⟨v, key, ?_⟩
    by_contra gone
    exact h.unregistered old gone there
  · exact .inl (Nat.le_of_not_lt old)

/-- What a listing holds that is made on the way was in use at the start. -/
theorem Goes.inUse_of_listed (h : Goes P s t) {f : Nat} {l : List Nat}
    (made : (t.node f).listing = some l) (mem : q ∈ l) :
    (s.node f).listing = some l ∨ s.InUse q := by
  induction h with
  | stay => exact .inl made
  | @step u e before _ lawful ih =>
    by_cases kind : ∀ p l, e ≠ .keep p l
    · exact ih (listed_before kind made).2
    · obtain ⟨r, l', rfl⟩ : ∃ r l', e = .keep r l' := by
        simpa using kind
      rcases node_keep (s := u) r l' f with ⟨rfl, _, now⟩ | same
      · rw [now] at made
        cases made
        obtain ⟨_, _, _, _, _, there⟩ := lawful.2 q mem
        exact .inr (before.inUse_of_registered there)
      · rw [same] at made
        exact ih made

/-- A name that is looked up in a folder is found in its listing, or else resolved. -/
theorem resolveWith_finds (known : v < s.systems.size) {parent : Nat}
    (there : parent < s.nodes.size) (name : String) (exts : ExtensionSet) :
    (∃ key, (s.resolveWith v parent name exts).2.lookup v key =
      some (s.resolveWith v parent name exts).1) ∨
    ∃ l, ((s.resolveWith v parent name exts).2.node parent).listing = some l ∧
      (s.resolveWith v parent name exts).1 ∈ l := by
  have known : v < (s.children parent true).2.systems.size :=
    Nat.lt_of_lt_of_le known (children_goes s parent true).size_systems
  simp only [resolveWith]
  split
  · rename_i child found
    obtain ⟨extension, _, found⟩ := List.exists_of_findSome?_eq_some found
    have mem := List.mem_of_find?_eq_some found
    simp only [children, Bool.true_or, List.filter_true] at mem
    exact .inr ⟨_, listing_node there, mem⟩
  · split <;> exact .inl (lookup_resolve known _ _)

section

variable [MediaTypes]

/-- A text leads to a path that is registered or listed. -/
theorem seeks_finds (seeks : c.Seeks v) (answered : s.perform c = some (.path q, t)) :
    (∃ key, t.lookup v key = some q) ∨ t.Holds c q := by
  obtain ⟨known, done⟩ := perform_eq answered
  cases seeks with
  | get raw =>
    cases done
    simp only [knows, decide_eq_true_eq] at known
    have known := Nat.lt_of_lt_of_le known (root_goes known).size_systems
    exact .inl (lookup_resolve known (s.root v).1 raw)
  | resolve parent raw =>
    cases done
    simp only [knows, Bool.and_eq_true, decide_eq_true_eq] at known
    exact .inl (lookup_resolve known.1 parent raw)
  | resolveWith parent name exts =>
    cases done
    simp only [knows, Bool.and_eq_true, decide_eq_true_eq] at known
    exact resolveWith_finds known.1 known.2 name exts

theorem seeks_known (sound : s.Sound) (seeks : c.Seeks v)
    (answered : s.perform c = some (.path q, t)) : q < t.nodes.size := by
  have soundThen := sound.goes (perform_goes answered)
  rcases seeks_finds seeks answered with ⟨key, there⟩ | held
  · exact (soundThen.registered _ _ _ there).1
  · cases c with
    | resolveWith w parent name exts =>
      obtain ⟨l, made, mem⟩ := held
      exact (soundThen.listed parent l q made mem).1
    | _ => cases held

/-- A text leads to paths that were in use at any time before, or to what was listed by then. -/
theorem seeks_inUse (h : Goes P s t) (seeks : c.Seeks v)
    (answered : t.perform c = some (.path q, u)) : s.Holds c q ∨ s.InUse q := by
  have goes : Goes (fun _ => True) s u :=
    (h.mono fun _ _ => trivial).trans ((perform_goes answered).mono fun _ _ => trivial)
  rcases seeks_finds seeks answered with ⟨key, there⟩ | held
  · exact .inr (goes.inUse_of_registered there)
  · cases c with
    | resolveWith w parent name exts =>
      obtain ⟨l, made, mem⟩ := held
      rcases goes.inUse_of_listed made mem with before | inUse
      · exact .inl ⟨l, before, mem⟩
      · exact .inr inUse
    | _ => cases held

end

/-! ## New paths -/

/-- Nobody says that a path is there from now on but the one who creates it. -/
theorem may_confirm (kind : c.may (.confirm q)) : c = .create q := by
  cases c with
  | create p =>
    cases kind
    rfl
  | _ => simp [Call.may, Effect.Looks] at kind

/-- A call that may make paths does nothing but look. -/
theorem may_register {key : String} {isFolder : Bool} (kind : c.may (.register v key isFolder))
    (e : Effect) (kind' : c.may e) : e.Looks := by
  cases c <;> first | exact kind' | simp [Call.may, Effect.Creates] at kind

/-- A path is there exactly if it was, unless it is confirmed on the way. -/
theorem Goes.present_kept (h : Goes P s t) (known : q < s.nodes.size) (other : ¬ P (.confirm q)) :
    (t.node q).present = (s.node q).present := by
  have both : q < t.nodes.size ∧ (t.node q).present = (s.node q).present := by
    refine h.keeps (I := fun t => q < t.nodes.size ∧ (t.node q).present = (s.node q).present)
      ?_ ⟨known, rfl⟩
    rintro u e kind _ ⟨known, same⟩
    have notThis : e ≠ .confirm q := by
      rintro rfl
      exact other kind
    exact ⟨Nat.lt_of_lt_of_le known (e.size_nodes_apply u),
      (present_apply known notThis).trans same⟩
  exact both.2

theorem run_present [MediaTypes] (ran : s.run calls = some t) (known : q < s.nodes.size)
    (created : .create q ∉ calls) : (t.node q).present = (s.node q).present := by
  have goes : Goes (fun e => e ≠ .confirm q) s t := by
    refine run_goes ran ?_
    rintro c mem e kind rfl
    rw [may_confirm kind] at mem
    exact created mem
  exact goes.present_kept known fun other => other rfl

/-- A path that is made on the way shows whether the disk has it. -/
theorem Goes.present_new (h : Goes Effect.Looks s t) (new : s.nodes.size ≤ q)
    (known : q < t.nodes.size) :
    (t.node q).present = s.disk.exists? (Utf8.ofText (t.node q).diskPath) := by
  induction h with
  | stay => exact absurd known (Nat.not_lt_of_le new)
  | @step u e before kind lawful ih =>
    rcases known_apply known with old | ⟨w, key, isFolder, rfl, rfl⟩
    · have other : e ≠ .confirm q := by
        rintro rfl
        cases kind
      rw [present_apply old other, (Effect.node_became lawful old).diskPath]
      exact ih old
    · rw [Effect.node_register, if_pos rfl, ← before.disk_kept]
      rfl

theorem Goes.known_before (h : Goes P s t)
    (none : ∀ v key isFolder, ¬ P (.register v key isFolder)) (known : q < t.nodes.size) :
    q < s.nodes.size := by
  induction h with
  | stay => exact known
  | @step u e _ kind _ ih =>
    rcases known_apply known with old | ⟨v, key, isFolder, rfl, _⟩
    · exact ih old
    · exact absurd kind (none v key isFolder)

section

variable [MediaTypes]

theorem perform_present (h : s.perform c = some (a, t)) (new : s.nodes.size ≤ q)
    (known : q < t.nodes.size) :
    (t.node q).present = s.disk.exists? (Utf8.ofText (t.node q).diskPath) := by
  have goes := perform_goes h
  by_cases registers : ∃ v key isFolder, c.may (.register v key isFolder)
  · obtain ⟨v, key, isFolder, kind⟩ := registers
    exact (goes.mono (may_register kind)).present_new new known
  · have none (v : Nat) (key : String) (isFolder : Bool) : ¬ c.may (.register v key isFolder) :=
      fun kind => registers ⟨v, key, isFolder, kind⟩
    exact absurd (goes.known_before none known) (Nat.not_lt_of_le new)

/-- One of the calls makes the path, which shows whether the disk has it then. In the end it still
does so, or it was created. -/
def MadeIn (s : Server) (calls : List Call) (t : Server) (q : Nat) : Prop :=
  ∃ before c after u a w, calls = before ++ c :: after ∧ s.run before = some u ∧
    u.perform c = some (a, w) ∧ u.nodes.size ≤ q ∧ q < w.nodes.size ∧
    (w.node q).present = u.disk.exists? (Utf8.ofText (w.node q).diskPath) ∧
    ((t.node q).present = (w.node q).present ∨
      .create q ∈ after ∧ (t.node q).present = true)

/-- Every path that a run adds is made by one of its calls. -/
theorem madeIn_run (ran : s.run calls = some t) (new : s.nodes.size ≤ q)
    (known : q < t.nodes.size) : s.MadeIn calls t q := by
  induction calls generalizing s with
  | nil =>
    cases ran
    exact absurd known (Nat.not_lt_of_le new)
  | cons c rest ih =>
    obtain ⟨a, u, first, ran⟩ := run_cons ran
    by_cases here : q < u.nodes.size
    · refine ⟨[], c, rest, s, a, u, rfl, rfl, first, new, here, perform_present first new here, ?_⟩
      by_cases created : .create q ∈ rest
      · have stays := ((run_goes_any ran).became here).present
        cases there : (t.node q).present with
        | true => exact .inr ⟨created, rfl⟩
        | false =>
          left
          symm
          by_contra there'
          rw [stays (Bool.eq_true_of_not_eq_false there')] at there
          cases there
      · exact .inl (run_present ran here created)
    · obtain ⟨before, c', after, w, a', w', rfl, led, made⟩ := ih ran (Nat.le_of_not_lt here)
      exact ⟨c :: before, c', after, w, a', w', rfl, (run_cons_of first).trans led, made⟩

/-! ## Invalidated paths -/

/-- **What was invalidated is not resolved again.** Once an invalidation succeeded, no text leads to
the path, whatever is called in between, unless its name is looked up in a folder whose listing is
from before and holds it. With the same exception, whatever a text leads to under the key of the
path was made since, and shows whether the disk had it when it was made, or was created. -/
theorem forgotten_stays_forgotten {s₀ s₁ s₂ s₃ : Server} (reach : Reachable s₀)
    (gone : s₀.perform (.invalidate v p) = some (.flag true, s₁)) (ran : s₁.run calls = some s₂)
    (seeks : c.Seeks v) (answered : s₂.perform c = some (.path q, s₃)) :
    (¬ s₁.Holds c p → q ≠ p) ∧
    (¬ s₁.Holds c q → (s₃.node q).system = v → (s₃.node q).key = (s₀.node p).key →
      s₁.MadeIn (calls ++ [c]) s₃ q) := by
  have sound₁ := reach.sound.goes (perform_goes gone)
  have goes : Goes (fun _ => True) s₁ s₃ :=
    (run_goes_any ran).trans ((perform_goes answered).mono fun _ _ => trivial)
  have free := lookup_invalidated gone
  have ran' : s₁.run (calls ++ [c]) = some s₃ := run_snoc_of ran answered
  -- What is in use after the invalidation and has the key is new.
  have new (inUse : s₁.InUse q) (system : (s₃.node q).system = v)
      (key : (s₃.node q).key = (s₀.node p).key) : s₁.nodes.size ≤ q := by
    rcases inUse with new | ⟨w, k, there⟩
    · exact new
    · obtain ⟨known, rfl, rfl⟩ := sound₁.registered _ _ _ there
      have became := goes.became known
      rw [← became.system, ← became.key, system, key, free] at there
      cases there
  have inUse : ¬ s₁.Holds c q → s₁.InUse q :=
    (seeks_inUse (run_goes_any ran) seeks answered).resolve_left
  constructor
  · rintro unheld rfl
    have there := (invalidate_eq s₀ v q).1.mp (by simpa using (perform_invalidate gone).1.symm)
    obtain ⟨known, system, _⟩ := reach.sound.registered _ _ _ there
    have older := Nat.lt_of_lt_of_le known (perform_goes gone).size_nodes
    have became := ((perform_goes gone).became known).trans (goes.became older)
    exact Nat.not_lt_of_le (new (inUse unheld) (became.system.trans system) became.key) older
  · intro unheld system key
    have sound₂ := sound₁.goes (run_goes_any ran)
    exact madeIn_run ran' (new (inUse unheld) system key) (seeks_known sound₂ seeks answered)

end

attribute [local instance] MediaTypes.familiar

/-- The root of a file system is made anew for a request after it was invalidated. -/
theorem root_made_anew : ∃ s₀ s₁ s₂, Reachable s₀ ∧
    s₀.perform (.invalidate 0 0) = some (.flag true, s₁) ∧ s₁.run [] = some s₁ ∧
    Call.Seeks 0 (.get 0 "") ∧ s₁.perform (.get 0 "") = some (.path 1, s₂) ∧
    s₁.MadeIn [.get 0 ""] s₂ 1 := by
  obtain ⟨s₀, led, s₁, s₂, gone, answered, system, key⟩ : ∃ s₀,
      (start .bare).run [.mount "/" none {}, .root 0] = some s₀ ∧ ∃ s₁ s₂,
      s₀.perform (.invalidate 0 0) = some (.flag true, s₁) ∧
      s₁.perform (.get 0 "") = some (.path 1, s₂) ∧ (s₂.node 1).system = 0 ∧
      (s₂.node 1).key = (s₀.node 0).key :=
    ⟨_, rfl, _, _, rfl, rfl, rfl, rfl⟩
  have reach : Reachable s₀ := ⟨_, _, led⟩
  have ran : s₁.run [] = some s₁ := rfl
  have made := (forgotten_stays_forgotten reach gone ran (.get "") answered).2 id system key
  exact ⟨s₀, s₁, s₂, reach, gone, rfl, .get "", answered, made⟩

/-! ## Listings from before -/

/-- A listing of a root in which there is one file finds this file. -/
theorem listed_alone [MediaTypes] (d : Tree) (name : String) (root : absoluteRoot d.1 "/" = "/")
    (there : d.1.exists? (Utf8.ofText "/") = true)
    (names : d.1.list (Utf8.ofText "/") = .ok [Utf8.ofText name])
    (file : d.1.isFolder (Disk.entryPath (Utf8.ofText "/") (Utf8.ofText name)) = false)
    (key : Key.normalize (Key.join "" (String.ofList (Utf8.repair (Utf8.ofText name)))) false =
      name) (below : name ≠ "") : ∃ s,
    (start d).run [.mount "/" none {}, .root 0, .children 0 true] = some s ∧
    0 < s.systems.size ∧ 1 < s.nodes.size ∧ s.lookup 0 name = some 1 ∧
    (s.node 0).listing = some [1] ∧ (s.node 0).isFolder = true ∧ (s.node 0).key = "" ∧
    (s.node 1).key = name ∧ (s.node 1).isFolder = false := by
  obtain ⟨r, ran, disk, systems, nodes, _, _, _, alive, free, node⟩ := start_mounted root
  rw [there] at node
  have systems : 0 < r.systems.size := by omega
  have known : 0 < r.nodes.size := by omega
  have file : r.entryIsFolder (r.node 0) (Utf8.ofText name) = false := by
    rw [entryIsFolder, node, disk]
    exact file
  have key : r.entryKey (r.node 0) (Utf8.ofText name) = name := by
    rw [entryKey, file, node]
    exact key
  have names : r.disk.list (Utf8.ofText (r.node 0).diskPath) = .ok [Utf8.ofText name] := by
    rw [node, disk]
    exact names
  have first := listing_single (by rw [node]; exact systems) known (by rw [node]) (by rw [node])
    (by rw [node]) (by rw [node, alive]; decide) names (by rw [key, node]; exact free name below)
  rw [key, file, node, nodes] at first
  obtain ⟨paths, size, there, entry⟩ := first
  have performed : r.perform (.children 0 true) = some (.paths [1], (r.listing 0).2) := by
    simp [perform, knows, known, carryOut, children, paths]
  have listed := listing_node known
  rw [paths] at listed
  refine ⟨_, run_snoc_of ran performed,
    Nat.lt_of_lt_of_le systems (listing_goes r 0).size_systems, size, there, listed, ?_, ?_, ?_⟩
  · rw [((listing_goes r 0).became known).isFolder, node]
  · rw [((listing_goes r 0).became known).key, node]
  · rw [entry]
    exact ⟨rfl, rfl⟩

/-- A listing of the root finds the file `x.txt`. -/
theorem listed_textDisk [MediaTypes] : ∃ s,
    (start textDisk).run [.mount "/" none {}, .root 0, .children 0 true] = some s ∧
    0 < s.systems.size ∧ 1 < s.nodes.size ∧ s.lookup 0 "x.txt" = some 1 ∧
    (s.node 0).listing = some [1] ∧ (s.node 0).isFolder = true ∧ (s.node 0).key = "" ∧
    (s.node 1).key = "x.txt" ∧ (s.node 1).isFolder = false :=
  listed_alone textDisk "x.txt" absoluteRoot_textDisk (by cbv) names_textDisk (by cbv) (by cbv)
    (by decide)

/-- A folder keeps the listing that was made of it, and looking up a name there gives the path that
the listing was made of, invalidated or not. -/
theorem listed_and_forgotten : ∃ s₀ s₁ s₂,
    (start textDisk).run [.mount "/" none {}, .root 0, .children 0 true] = some s₀ ∧
    s₀.perform (.invalidate 0 1) = some (.flag true, s₁) ∧
    s₁.perform (.resolveWith 0 0 "x" .text) = some (.path 1, s₂) := by
  obtain ⟨s₀, ran, systems, nodes, there, listed, _, _, key, file⟩ := listed_textDisk
  have gone : (s₀.invalidate 0 1).1 = true :=
    (invalidate_eq s₀ 0 1).1.mpr (by rw [key, there])
  have performed : s₀.perform (.invalidate 0 1) =
      some (.flag (s₀.invalidate 0 1).1, (s₀.invalidate 0 1).2) := by
    simp [perform, knows, carryOut, systems, nodes]
  rw [gone] at performed
  have goes := perform_goes performed
  have nodes' : (s₀.invalidate 0 1).2.nodes = s₀.nodes := (invalidate_eq s₀ 0 1).2.1
  refine ⟨s₀, _, (s₀.invalidate 0 1).2, ran, performed, ?_⟩
  generalize (s₀.invalidate 0 1).2 = t at goes nodes' ⊢
  have listed : t.listing 0 = ([1], t) := by
    simp only [listing, node, nodes'] at listed ⊢
    rw [listed]
  have found : t.findChild [1] "x" "txt" = some 1 := by
    have same : t.node 1 = s₀.node 1 := by
      rw [node, nodes', node]
    simp only [findChild, PathNode.entity, PathNode.extension, same, key, file, List.find?_cons]
    cbv
  have systems := Nat.lt_of_lt_of_le systems goes.size_systems
  have known : 0 < t.nodes.size := by
    rw [nodes']
    omega
  simp [perform, knows, systems, known, carryOut, resolveWith, children, listed,
    ExtensionSet.text, found]

end Server

end Docroot
