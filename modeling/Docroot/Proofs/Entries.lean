import Mathlib.Data.List.Nodup
import Docroot.Response

/-!
What a header holds after a write.

Names agree by their keys, whatever registries they come from. A value that is set is the one value
of its name and stands last; the values of other names stay as they are, in their order.
-/

namespace Docroot

namespace StandardName

theorem mem_all (n : StandardName) : n ∈ all := List.mem_of_getElem? (getElem?_all n)

set_option maxRecDepth 10000 in
theorem nodup_keys : (all.map fun n => nameKey n.text).Nodup := by
  decide +kernel

/-- Standard names have keys of their own. -/
theorem eq_of_key {a b : StandardName} (same : nameKey a.text = nameKey b.text) : a = b :=
  List.inj_on_of_nodup_map nodup_keys a.mem_all b.mem_all same

@[simp] theorem key_eq_iff {a b : StandardName} : nameKey a.text = nameKey b.text ↔ a = b := by
  constructor
  · exact eq_of_key
  · intro same
    rw [same]

end StandardName

namespace HeaderName

theorem agrees_iff (a b : HeaderName) : a.agrees b = true ↔ a.key = b.key := by
  rw [agrees, beq_iff_eq]

theorem agrees_self (a : HeaderName) : a.agrees a = true := (a.agrees_iff a).mpr rfl

/-- A later instance is another one. -/
theorem sameInstance_of_lt {a b : HeaderName} (later : a.serial < b.serial) :
    b.sameInstance a = false := by
  have differ : b.serial ≠ a.serial := by omega
  simp [sameInstance, differ]

/-- Instances of standard names agree if they are of the same name. -/
theorem standard_agrees_iff (r r' : Nat) (a b : StandardName) :
    (standard r a).agrees (standard r' b) = true ↔ a = b := by
  rw [agrees_iff]
  exact StandardName.key_eq_iff

end HeaderName

namespace Header

variable (h : Header) (n : HeaderName) (value : String)

/-- The entries of all names but the given ones. -/
def apart (names : List HeaderName) : List (HeaderName × String) :=
  h.entries.filter fun e => names.all fun n => !e.1.agrees n

theorem entries_set : (h.set n value).entries = h.apart [n] ++ [(n, value)] := by
  simp [set, append, remove, apart]

/-- A value that is set is the one value of its name. -/
theorem values_set : (h.set n value).values n = [value] := by
  have gone : (h.apart [n]).filter (fun e => e.1.agrees n) = [] := by
    rw [List.filter_eq_nil_iff]
    intro e mem
    simpa [apart] using (List.mem_filter.mp mem).2
  rw [values, entries_set, List.filter_append, gone]
  simp [n.agrees_self]

variable {h n value}

/-- Of two names that were set one after the other both have their value, at the end. -/
theorem entries_set_set {m : HeaderName} {value' : String} (differ : n.agrees m = false) :
    ((h.set n value).set m value').entries = h.apart [n, m] ++ [(n, value), (m, value')] := by
  have first : (h.set n value).apart [m] = h.apart [n, m] ++ [(n, value)] := by
    rw [apart, entries_set, List.filter_append, apart, List.filter_filter]
    simp [apart, differ, Bool.and_comm]
  rw [entries_set, first, List.append_assoc]
  rfl

/-- Setting a value leaves the values of other names as they are. -/
theorem values_set_other {m : HeaderName} (other : m.agrees n = false) :
    (h.set n value).values m = h.values m := by
  have differ (e : HeaderName × String) (own : e.1.agrees m = true) : e.1.agrees n = false := by
    rw [← Bool.not_eq_true, HeaderName.agrees_iff] at other ⊢
    rwa [(e.1.agrees_iff m).mp own]
  have last : n.agrees m = false := by
    rw [← Bool.not_eq_true, HeaderName.agrees_iff] at other ⊢
    exact Ne.symm other
  have kept : (h.apart [n]).filter (fun e => e.1.agrees m) =
      h.entries.filter fun e => e.1.agrees m := by
    rw [apart, List.filter_filter]
    refine List.filter_congr ?_
    intro e _
    by_cases own : e.1.agrees m = true
    · simp [own, differ e own]
    · simp [own]
  rw [values, values, entries_set, List.filter_append, kept]
  simp [last]

/-- What a write of one of the names leaves of the others. -/
theorem apart_set {names : List HeaderName} (mem : n ∈ names) :
    (h.set n value).apart names = h.apart names := by
  have own : (names.all fun m => !n.agrees m) = false := by
    rw [List.all_eq_false]
    exact ⟨n, mem, by simp [n.agrees_self]⟩
  have kept : (h.apart [n]).filter (fun e => names.all fun m => !e.1.agrees m) = h.apart names := by
    rw [apart, List.filter_filter]
    refine List.filter_congr ?_
    intro e _
    by_cases free : (names.all fun m => !e.1.agrees m) = true
    · have apart := List.all_eq_true.mp free n mem
      simp [free, apart]
    · simp [free]
  have whole : (h.set n value).apart names =
      (h.apart [n] ++ [(n, value)]).filter fun e => names.all fun m => !e.1.agrees m := by
    rw [apart, entries_set]
  rw [whole, List.filter_append, kept]
  simp [own]

end Header

end Docroot
