import Docroot.Server.Warm

/-!
What each change of a server does to its parts.

A part is read by its number, and a number beyond the end gives a part that is empty. Every
equation below says how one change shows in one such reading; the proofs after it never look into
the arrays again.
-/

namespace Docroot

section
variable {α : Type} (a : Array α) (i j : Nat) (x d : α)

theorem getD_setIfInBounds :
    (a.setIfInBounds i x).getD j d = if i = j ∧ i < a.size then x else a.getD j d := by
  simp only [Array.getD_eq_getD_getElem?, Array.getElem?_setIfInBounds]
  by_cases same : i = j
  · subst same
    by_cases inside : i < a.size <;> simp [inside]
  · simp [same]

theorem getD_push : (a.push x).getD j d = if j = a.size then x else a.getD j d := by
  simp only [Array.getD_eq_getD_getElem?, Array.getElem?_push]
  by_cases last : j = a.size <;> simp [last]

theorem getD_beyond (h : a.size ≤ j) : a.getD j d = d := by
  simp [Array.getD_eq_getD_getElem?, Array.getElem?_eq_none h]

end

namespace Server

variable (s : Server)

theorem node_setNode (p q : Nat) (n : PathNode) :
    (s.setNode p n).node q = if p = q ∧ p < s.nodes.size then n else s.node q :=
  getD_setIfInBounds _ _ _ _ _

theorem system_setSystem (v w : Nat) (f : FileSystem) :
    (s.setSystem v f).system w = if v = w ∧ v < s.systems.size then f else s.system w :=
  getD_setIfInBounds _ _ _ _ _

theorem cache_setCache (c b : Nat) (t : ContentCache) :
    (s.setCache c t).cache b = if c = b ∧ c < s.caches.size then t else s.cache b :=
  getD_setIfInBounds _ _ _ _ _

theorem node_beyond {p : Nat} (h : s.nodes.size ≤ p) : s.node p = default :=
  getD_beyond _ _ _ h

/-- Nothing is said of what is no path. -/
theorem known_of_ne {p : Nat} (said : s.node p ≠ default) : p < s.nodes.size := by
  rw [← Nat.not_le]
  intro beyond
  exact said (s.node_beyond beyond)

theorem known_of_isFolder {p : Nat} (folder : (s.node p).isFolder = true) : p < s.nodes.size := by
  refine s.known_of_ne ?_
  intro none
  rw [none] at folder
  cases folder

theorem known_of_present {p : Nat} (present : (s.node p).present = true) : p < s.nodes.size := by
  refine s.known_of_ne ?_
  intro none
  rw [none] at present
  cases present

theorem known_of_listing {p : Nat} {l : List Nat} (listed : (s.node p).listing = some l) :
    p < s.nodes.size := by
  refine s.known_of_ne ?_
  intro none
  rw [none] at listed
  cases listed

theorem system_beyond {v : Nat} (h : s.systems.size ≤ v) : s.system v = default :=
  getD_beyond _ _ _ h

theorem cache_beyond {c : Nat} (h : s.caches.size ≤ c) : s.cache c = default :=
  getD_beyond _ _ _ h

@[simp] theorem system_setNode (p v : Nat) (n : PathNode) :
    (s.setNode p n).system v = s.system v := rfl

@[simp] theorem cache_setNode (p c : Nat) (n : PathNode) :
    (s.setNode p n).cache c = s.cache c := rfl

@[simp] theorem node_setSystem (v p : Nat) (f : FileSystem) :
    (s.setSystem v f).node p = s.node p := rfl

@[simp] theorem cache_setSystem (v c : Nat) (f : FileSystem) :
    (s.setSystem v f).cache c = s.cache c := rfl

@[simp] theorem node_setCache (c p : Nat) (t : ContentCache) :
    (s.setCache c t).node p = s.node p := rfl

@[simp] theorem system_setCache (c v : Nat) (t : ContentCache) :
    (s.setCache c t).system v = s.system v := rfl

@[simp] theorem node_report (e : Event) (p : Nat) : (s.report e).node p = s.node p := rfl

@[simp] theorem system_report (e : Event) (v : Nat) : (s.report e).system v = s.system v := rfl

@[simp] theorem cache_report (e : Event) (c : Nat) : (s.report e).cache c = s.cache c := rfl

@[simp] theorem disk_report (e : Event) : (s.report e).disk = s.disk := rfl

@[simp] theorem disk_setNode (p : Nat) (n : PathNode) : (s.setNode p n).disk = s.disk := rfl

@[simp] theorem disk_setSystem (v : Nat) (f : FileSystem) : (s.setSystem v f).disk = s.disk := rfl

@[simp] theorem disk_setCache (c : Nat) (t : ContentCache) : (s.setCache c t).disk = s.disk := rfl

@[simp] theorem node_disk (d : Disk) (p : Nat) :
    ({ s with disk := d } : Server).node p = s.node p := rfl

@[simp] theorem system_disk (d : Disk) (v : Nat) :
    ({ s with disk := d } : Server).system v = s.system v := rfl

@[simp] theorem cache_disk (d : Disk) (c : Nat) :
    ({ s with disk := d } : Server).cache c = s.cache c := rfl

@[simp] theorem size_nodes_setNode (p : Nat) (n : PathNode) :
    (s.setNode p n).nodes.size = s.nodes.size := by simp [setNode]

@[simp] theorem size_systems_setSystem (v : Nat) (f : FileSystem) :
    (s.setSystem v f).systems.size = s.systems.size := by simp [setSystem]

@[simp] theorem size_caches_setCache (c : Nat) (t : ContentCache) :
    (s.setCache c t).caches.size = s.caches.size := by simp [setCache]

@[simp] theorem node_askCache (n : PathNode) (p : Nat) : (s.askCache n).2.node p = s.node p := rfl

@[simp] theorem system_askCache (n : PathNode) (v : Nat) :
    (s.askCache n).2.system v = s.system v := rfl

@[simp] theorem disk_askCache (n : PathNode) : (s.askCache n).2.disk = s.disk := rfl

/-- Asking a cache counts, but what it holds stays the same. -/
@[simp] theorem peek_askCache (n : PathNode) (c : Nat) (key : String) :
    ((s.askCache n).2.cache c).peek key = (s.cache c).peek key := by
  simp only [askCache, cache_setCache]
  split
  · rename_i same
    rw [ContentCache.peek_read, same.1]
  · rfl

@[simp] theorem node_settle {α : Type} (v : Verdict α) (p : Nat) :
    (s.settle v).2.node p = s.node p := by
  simp only [settle]
  split <;> rfl

@[simp] theorem cache_settle {α : Type} (v : Verdict α) (c : Nat) :
    (s.settle v).2.cache c = s.cache c := by
  simp only [settle]
  split <;> rfl

theorem lookup_beyond {v : Nat} (h : s.systems.size ≤ v) (key : String) :
    s.lookup v key = none := by
  simp only [lookup, s.system_beyond h]
  rfl

end Server

end Docroot
