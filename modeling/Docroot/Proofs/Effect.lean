import Docroot.Proofs.Access
import Docroot.Proofs.Call

/-!
The elementary changes of a server.

Whatever a call does is a sequence of effects, each of which is lawful where it happens:
`Server.Goes P` relates two states by lawful effects of a kind `P`, and `perform_goes` says which
kind each call has. An invariant is shown for the effects and then holds of all calls.
-/

namespace Docroot

inductive Effect where
  | note (e : Event)
  /-- A new path is registered under a key. -/
  | register (v : Nat) (key : String) (isFolder : Bool)
  /-- The listing of a path is kept. -/
  | keep (p : Nat) (l : List Nat)
  | ask (c : Nat) (key : String)
  /-- The text of a path goes into its content cache. -/
  | fill (p : Nat) (text : String)
  | alter (d : Disk)
  /-- A path is there from now on. -/
  | confirm (p : Nat)
  | forget (v : Nat) (key : String)
  | mount (f : FileSystem)
  | share (v owners : Nat)
  | addCache (t : ContentCache)
  | overwrite (c : Nat) (key text : String)
  | drop (c : Nat) (key : String)
  | wipe (c : Nat)

namespace Effect

def apply : Effect → Server → Server
  | note e, s => s.report e
  | register v key isFolder, s =>
    { s with nodes := s.nodes.push (s.makeNode v key isFolder) }.setSystem v
      { s.system v with registry := (s.system v).registry.insert key s.nodes.size }
  | keep p l, s => s.setNode p { s.node p with listing := some l }
  | ask c key, s => s.setCache c ((s.cache c).read key).2
  | fill p text, s => s.fillCache (s.node p) text
  | alter d, s => { s with disk := d }
  | confirm p, s => s.setNode p { s.node p with present := true }
  | forget v key, s =>
    s.setSystem v { s.system v with registry := (s.system v).registry.erase key }
  | mount f, s => { s with systems := s.systems.push f }
  | share v owners, s => s.setSystem v { s.system v with owners }
  | addCache t, s => { s with caches := s.caches.push t }
  | overwrite c key text, s => s.setCache c ((s.cache c).write key text)
  | drop c key, s => s.setCache c ((s.cache c).remove key).2
  | wipe c, s => s.setCache c (s.cache c).clear

/-- A path stands for an entry of a folder on disk: it is registered under the entry's key. -/
def Lists (s : Server) (n : PathNode) (q : Nat) : Prop :=
  n.isFolder = true ∧ ∃ names, s.disk.list (Utf8.ofText n.diskPath) = .ok names ∧
    ∃ name ∈ names, s.lookup n.system (Key.normalize
      (Key.join n.key (String.ofList (Utf8.repair name)))
      (s.disk.isFolder (Disk.entryPath (Utf8.ofText n.diskPath) name))) = some q

/-- Where an effect may happen. -/
def Lawful (s : Server) : Effect → Prop
  | register v key isFolder =>
    v < s.systems.size ∧ s.lookup v key = none ∧ ∃ raw, key = Key.normalize raw isFolder
  | keep p l =>
    (s.node p).listing = none ∧ ∀ q ∈ l, Lists s (s.node p) q
  | fill p text =>
    (s.node p).present = true ∧ (s.node p).isFolder = false ∧
    (s.cache (s.system (s.node p).system).cache).peek (s.node p).key = none ∧
    Server.textOnDisk s.disk (Utf8.ofText (s.node p).diskPath) = .ok text
  | alter d => s.disk.IsTree → d.IsTree
  | confirm p => (s.node p).present = false
  | mount f => f.registry = .empty ∧ f.cache < s.caches.size
  | addCache t => t.entries = .empty ∧ t.writes = 0
  | _ => True

/-- The effects of resolving paths. -/
def Resolves : Effect → Prop
  | note _ | register .. => True
  | _ => False

/-- The effects of reading texts. -/
def Reads : Effect → Prop
  | note _ | ask .. | fill .. => True
  | _ => False

/-- The effects of calls that only look: at paths, at the disk and at texts. -/
def Looks : Effect → Prop
  | note _ | register .. | keep .. | ask .. | fill .. => True
  | _ => False

/-- The effects of making a path on disk. -/
def Creates (p : Nat) : Effect → Prop
  | note _ | alter _ => True
  | confirm q => p = q
  | _ => False

theorem Resolves.looks (e : Effect) (h : e.Resolves) : e.Looks := by
  cases e <;> first | exact trivial | exact h

theorem Reads.looks (e : Effect) (h : e.Reads) : e.Looks := by
  cases e <;> first | exact trivial | exact h

end Effect

/-- The effects that a call may have. -/
def Call.may : Call → Effect → Prop
  | newCache, e => ∃ t, e = .addCache t
  | mount .., e => (∃ t, e = .addCache t) ∨ ∃ f, e = .mount f
  | retain v, e | release v, e => ∃ owners, e = .share v owners
  | invalidate v _, e => ∃ key, e = .forget v key
  | create p, e => e.Creates p
  | writeText c key text, e => e = .overwrite c key text
  | removeText c key, e => e = .drop c key
  | clearTexts c, e => e = .wipe c
  | change d, e => e = .alter d.1
  | _, e => e.Looks

namespace Server

/-- From `s` to the other state by lawful effects of the kind `P`. -/
inductive Goes (P : Effect → Prop) (s : Server) : Server → Prop
  | stay : Goes P s s
  | step {t : Server} (e : Effect) : Goes P s t → P e → e.Lawful t → Goes P s (e.apply t)

namespace Goes

variable {P Q : Effect → Prop} {s t u : Server}

theorem one (e : Effect) (kind : P e) (lawful : e.Lawful s) : Goes P s (e.apply s) :=
  .step e .stay kind lawful

theorem trans (h : Goes P s t) (h' : Goes P t u) : Goes P s u := by
  induction h' with
  | stay => exact h
  | step e _ kind lawful ih => exact .step e ih kind lawful

theorem mono (sub : ∀ e, P e → Q e) (h : Goes P s t) : Goes Q s t := by
  induction h with
  | stay => exact .stay
  | step e _ kind lawful ih => exact .step e ih (sub e kind) lawful

/-- What every effect of a kind keeps is kept all the way. -/
theorem keeps {I : Server → Prop} (step : ∀ t e, P e → e.Lawful t → I t → I (e.apply t))
    (h : Goes P s u) (start : I s) : I u := by
  induction h with
  | stay => exact start
  | step e _ kind lawful ih => exact step _ e kind lawful ih

end Goes

end Server

/-! ## What effects leave as it is -/

/-- How a path may change: its listing may be made and it may turn out to be there. -/
structure PathNode.Became (m n : PathNode) : Prop where
  system : n.system = m.system
  key : n.key = m.key
  isFolder : n.isFolder = m.isFolder
  diskPath : n.diskPath = m.diskPath
  present : m.present = true → n.present = true
  listing : ∀ l, m.listing = some l → n.listing = some l

theorem PathNode.Became.refl (n : PathNode) : n.Became n :=
  ⟨rfl, rfl, rfl, rfl, id, fun _ => id⟩

theorem PathNode.Became.trans {l m n : PathNode} (h : l.Became m) (h' : m.Became n) :
    l.Became n where
  system := h'.system.trans h.system
  key := h'.key.trans h.key
  isFolder := h'.isFolder.trans h.isFolder
  diskPath := h'.diskPath.trans h.diskPath
  present there := h'.present (h.present there)
  listing l made := h'.listing l (h.listing l made)

namespace Effect

variable {s : Server}

theorem size_nodes_apply (e : Effect) (s : Server) : s.nodes.size ≤ (e.apply s).nodes.size := by
  cases e <;> simp [apply, Server.setSystem, Server.report, Server.setCache, Server.fillCache]

theorem size_systems_apply (e : Effect) (s : Server) :
    s.systems.size ≤ (e.apply s).systems.size := by
  cases e <;> simp [apply, Server.setNode, Server.report, Server.setCache, Server.fillCache]

theorem size_caches_apply (e : Effect) (s : Server) :
    s.caches.size ≤ (e.apply s).caches.size := by
  cases e <;> simp [apply, Server.setNode, Server.report, Server.setSystem, Server.fillCache]

theorem node_register (v : Nat) (key : String) (isFolder : Bool) (p : Nat) :
    ((register v key isFolder).apply s).node p =
      if p = s.nodes.size then s.makeNode v key isFolder else s.node p :=
  getD_push _ _ _ _

theorem node_became {e : Effect} (lawful : e.Lawful s) {p : Nat} (known : p < s.nodes.size) :
    (s.node p).Became ((e.apply s).node p) := by
  cases e with
  | register v key isFolder =>
    rw [node_register, if_neg (Nat.ne_of_lt known)]
    exact .refl _
  | keep q l =>
    simp only [apply, Server.node_setNode]
    split
    · rename_i same
      obtain ⟨rfl, _⟩ := same
      exact ⟨rfl, rfl, rfl, rfl, id, fun _ made => by simp [lawful.1] at made⟩
    · exact .refl _
  | confirm q =>
    simp only [apply, Server.node_setNode]
    split
    · rename_i same
      obtain ⟨rfl, _⟩ := same
      exact ⟨rfl, rfl, rfl, rfl, fun _ => rfl, fun _ => id⟩
    · exact .refl _
  | _ => exact .refl _

theorem system_kept (e : Effect) {v : Nat} (known : v < s.systems.size) :
    ((e.apply s).system v).root = (s.system v).root ∧
    ((e.apply s).system v).cache = (s.system v).cache ∧
    ((e.apply s).system v).config = (s.system v).config := by
  cases e with
  | register w key isFolder =>
    simp only [apply, Server.system_setSystem]
    split
    · rename_i same
      exact same.1 ▸ ⟨rfl, rfl, rfl⟩
    · exact ⟨rfl, rfl, rfl⟩
  | forget w key | share w owners =>
    simp only [apply, Server.system_setSystem]
    split
    · rename_i same
      exact same.1 ▸ ⟨rfl, rfl, rfl⟩
    · exact ⟨rfl, rfl, rfl⟩
  | mount f =>
    have older : (s.systems.push f).getD v default = s.system v := by
      rw [getD_push, if_neg (Nat.ne_of_lt known)]
      rfl
    simp only [apply, Server.system, older, and_self]
  | _ => exact ⟨rfl, rfl, rfl⟩

/-- Registries change key by key: a new path is put under its key, or a key is forgotten. -/
theorem lookup_apply {e : Effect} (lawful : e.Lawful s) (w : Nat) (k : String) :
    (e.apply s).lookup w k =
      match e with
      | register v key _ => if v = w ∧ key = k then some s.nodes.size else s.lookup w k
      | forget v key => if v = w ∧ key = k then none else s.lookup w k
      | _ => s.lookup w k := by
  cases e with
  | register v key isFolder =>
    obtain ⟨known, _⟩ := lawful
    simp only [apply, Server.lookup, Server.system_setSystem]
    by_cases same : v = w
    · subst same
      have known' : v < ({ s with nodes := s.nodes.push (s.makeNode v key isFolder) } :
        Server).systems.size := known
      simp only [known', and_self, if_true, true_and, Table.find?_insert]
    · simp only [same, false_and, if_false]
      rfl
  | forget v key =>
    simp only [apply, Server.lookup, Server.system_setSystem]
    by_cases same : v = w
    · subst same
      by_cases known : v < s.systems.size
      · simp only [known, and_self, if_true, true_and, Table.find?_erase]
      · have none := s.lookup_beyond (Nat.le_of_not_lt known) k
        simp only [Server.lookup] at none
        simp [known, none]
    · simp [same]
  | share v owners =>
    simp only [apply, Server.lookup, Server.system_setSystem]
    split
    · rename_i same
      rw [same.1]
    · rfl
  | mount f =>
    simp only [apply, Server.lookup, Server.system, getD_push]
    split
    · rename_i new
      subst new
      rw [getD_beyond _ _ _ (Nat.le_refl _), lawful.1]
      rfl
    · rfl
  | _ => rfl

theorem disk_apply (e : Effect) (s : Server) :
    (e.apply s).disk = match e with
      | alter d => d
      | _ => s.disk := by
  cases e <;> rfl

end Effect

namespace Server.Goes

variable {P : Effect → Prop} {s t : Server}

theorem size_nodes (h : Goes P s t) : s.nodes.size ≤ t.nodes.size :=
  h.keeps (I := fun t => s.nodes.size ≤ t.nodes.size)
    (fun t e _ _ ih => Nat.le_trans ih (e.size_nodes_apply t)) (Nat.le_refl _)

theorem size_systems (h : Goes P s t) : s.systems.size ≤ t.systems.size :=
  h.keeps (I := fun t => s.systems.size ≤ t.systems.size)
    (fun t e _ _ ih => Nat.le_trans ih (e.size_systems_apply t)) (Nat.le_refl _)

theorem became (h : Goes P s t) {p : Nat} (known : p < s.nodes.size) :
    (s.node p).Became (t.node p) := by
  induction h with
  | stay => exact .refl _
  | step e before _ lawful ih =>
    exact ih.trans (Effect.node_became lawful (Nat.lt_of_lt_of_le known before.size_nodes))

theorem system_kept (h : Goes P s t) {v : Nat} (known : v < s.systems.size) :
    (t.system v).root = (s.system v).root ∧ (t.system v).cache = (s.system v).cache ∧
    (t.system v).config = (s.system v).config := by
  induction h with
  | stay => exact ⟨rfl, rfl, rfl⟩
  | @step t e before _ _ ih =>
    obtain ⟨root, cache, config⟩ :=
      e.system_kept (Nat.lt_of_lt_of_le known before.size_systems)
    exact ⟨root.trans ih.1, cache.trans ih.2.1, config.trans ih.2.2⟩

/-- What is registered stays registered until its key is forgotten. -/
theorem lookup_kept (h : Goes P s t) {v : Nat} {key : String} (kept : ¬ P (.forget v key)) {q : Nat}
    (there : s.lookup v key = some q) : t.lookup v key = some q := by
  refine h.keeps (I := fun t => t.lookup v key = some q) (fun t e kind lawful ih => ?_) there
  rw [Effect.lookup_apply lawful]
  cases e with
  | register w k isFolder =>
    obtain ⟨_, free, _⟩ := lawful
    by_cases same : w = v ∧ k = key
    · obtain ⟨rfl, rfl⟩ := same
      simp [free] at ih
    · simpa [same] using ih
  | forget w k =>
    by_cases same : w = v ∧ k = key
    · obtain ⟨rfl, rfl⟩ := same
      exact absurd kind kept
    · simpa [same] using ih
  | _ => exact ih

/-- Resolving leaves the paths alone that there are. -/
theorem node_kept (h : Goes Effect.Resolves s t) {p : Nat} (known : p < s.nodes.size) :
    t.node p = s.node p := by
  induction h with
  | stay => rfl
  | step e before kind _ ih =>
    rw [← ih]
    cases e with
    | register v key isFolder =>
      rw [Effect.node_register,
        if_neg (Nat.ne_of_lt (Nat.lt_of_lt_of_le known before.size_nodes))]
    | note e => rfl
    | _ => cases kind

/-- Reading leaves paths and file systems as they are. -/
theorem reads_kept (h : Goes Effect.Reads s t) : t.nodes = s.nodes ∧ t.systems = s.systems := by
  refine h.keeps (I := fun t => t.nodes = s.nodes ∧ t.systems = s.systems)
    (fun t e kind _ ih => ?_) ⟨rfl, rfl⟩
  cases e with
  | note | ask | fill => exact ih
  | _ => cases kind

/-- Looking does not change the disk. -/
theorem disk_kept (h : Goes Effect.Looks s t) : t.disk = s.disk := by
  refine h.keeps (I := fun t => t.disk = s.disk) (fun t e kind _ ih => ?_) rfl
  rw [e.disk_apply]
  cases e with
  | alter d => cases kind
  | _ => exact ih

/-- Looking mounts no file system. -/
theorem systems_looks (h : Goes Effect.Looks s t) : t.systems.size = s.systems.size := by
  refine h.keeps (I := fun t => t.systems.size = s.systems.size) (fun t e kind _ ih => ?_) rfl
  rw [← ih]
  cases e with
  | note | register | keep | ask | fill =>
    simp [Effect.apply, setNode, report, setCache, fillCache]
  | _ => cases kind

end Server.Goes

end Docroot
