import Docroot.Proofs.Marks

/-!
Names that registries handed out.

A value is stored under an instance that some registry handed out, whatever its spelling was. Two
such instances agree exactly if they are spelled alike but for the case of ASCII letters and blank
space at the ends. What is handed out under a standard name is the seeded instance, unless the
registry was told to register this name anew.
-/

namespace Docroot

/-- Whether a call registers none of the given standard names anew. -/
def NameCall.Spares (kept : List StandardName) (c : NameCall) : Prop :=
  ∀ m ∈ kept, c.overrides (nameKey m.text) = false

theorem NameCall.spares_nil (c : NameCall) : c.Spares [] := by
  intro m mem
  cases mem

namespace NameRegistry

variable {r : NameRegistry} {n : HeaderName}

/-- What is handed out is the answer of one of the calls. -/
theorem mem_answers_iff {calls : List NameCall} :
    some n ∈ r.answers calls ↔
      ∃ before c after, calls = before ++ c :: after ∧ ((r.run before).call c).1 = some n := by
  induction calls generalizing r with
  | nil => simp [answers]
  | cons c rest ih =>
    rw [answers, List.mem_cons, ih]
    constructor
    · rintro (first | ⟨before, c', after, rfl, handed⟩)
      · exact ⟨[], c, rest, rfl, first.symm⟩
      · exact ⟨c :: before, c', after, rfl, handed⟩
    · rintro ⟨before, c', after, split, handed⟩
      cases before with
      | nil =>
        obtain ⟨rfl, rfl⟩ := List.cons.inj split
        exact .inl handed.symm
      | cons b before =>
        obtain ⟨rfl, rfl⟩ := List.cons.inj split
        exact .inr ⟨before, c', after, rfl, handed⟩

/-- A registry that keeps the seeded instance of a name hands out no other under it. -/
theorem eq_standard_of_call {id : Nat} {m : StandardName} {c : NameCall} (sound : r.Sound)
    (owner : r.id = id) (there : r.names.find? (nameKey m.text) = some (.standard id m))
    (keeps : c.overrides (nameKey m.text) = false) (handed : (r.call c).1 = some n)
    (own : n.key = nameKey m.text) : n = .standard id m := by
  rcases r.call_cases c with ⟨_, _, known⟩ | ⟨n', handed', _, _, new⟩
  · rcases known n handed with found | ⟨m', _, rfl⟩
    · have key := (sound.keys _ n found).1
      rw [get?, ← key, own, there] at found
      exact (Option.some.inj found).symm
    · rw [StandardName.eq_of_key own, ← owner]
      rfl
  · obtain rfl : n = n' := Option.some.inj (handed.symm.trans handed')
    rw [own, there, keeps] at new
    rcases new with new | new <;> cases new

end NameRegistry

namespace HeaderName

variable {kept kept' : List StandardName} {n n' : HeaderName}

/-- An instance that some registry handed out, which registered none of the given names anew. -/
def HandedOut (kept : List StandardName) (n : HeaderName) : Prop :=
  ∃ id debug calls, (∀ c ∈ calls, NameCall.Spares kept c) ∧
    some n ∈ (NameRegistry.create id debug).answers calls

theorem HandedOut.key (handed : n.HandedOut kept) : n.key = nameKey n.text := by
  obtain ⟨id, debug, calls, _, mem⟩ := handed
  exact ((NameRegistry.sound_create id debug).issued_of_mem mem).key

/-- Names agree if they are the same but for case and blank space, whatever registries they come
from. -/
theorem HandedOut.agrees_iff (first : n.HandedOut kept) (second : n'.HandedOut kept') :
    n.agrees n' = true ↔ nameKey n.text = nameKey n'.text := by
  rw [HeaderName.agrees_iff, first.key, second.key]

theorem handedOut_standard (kept : List StandardName) (id : Nat) (m : StandardName) :
    (standard id m).HandedOut kept := by
  refine ⟨id, false, [.standard m], ?_, List.mem_singleton.mpr rfl⟩
  intro c mem m' _
  rw [List.mem_singleton.mp mem]
  rfl

/-- Under a name that was not registered anew, the mark is that of the standard name. -/
theorem HandedOut.replayable {m : StandardName} (handed : n.HandedOut kept) (mem : m ∈ kept)
    (own : nameKey n.text = nameKey m.text) : n.replayable = m.replayable := by
  have key := handed.key
  obtain ⟨id, debug, calls, spare, given⟩ := handed
  obtain ⟨before, c, after, rfl, answer⟩ := NameRegistry.mem_answers_iff.mp given
  have keep : ∀ b ∈ before, b.overrides (nameKey m.text) = false := by
    intro b earlier
    exact spare b (List.mem_append_left _ earlier) m mem
  have there := NameRegistry.find?_run keep (NameRegistry.find?_create id debug m)
  have same := NameRegistry.eq_standard_of_call ((NameRegistry.sound_create id debug).run before)
    (NameRegistry.id_run _ _) there (spare c (by simp) m mem) answer (key.trans own)
  rw [same]
  rfl

end HeaderName

/-- All values of the header stand under names that registries handed out, which registered none of
the given names anew. -/
def Header.Genuine (kept : List StandardName) (h : Header) : Prop :=
  ∀ e ∈ h.entries, e.1.HandedOut kept

/-! ## Drafts -/

namespace Server

variable {s : Server} {kept : List StandardName} {r : Nat}

/-- The server has the registry, and it was asked anything but to register the given names anew. -/
structure KeepsMarks (s : Server) (kept : List StandardName) (r : Nat) : Prop where
  known : r < s.registries.size
  asked : ∃ debug calls, (∀ c ∈ calls, NameCall.Spares kept c) ∧
    s.registry r = (NameRegistry.create r debug).run calls

theorem KeepsMarks.handedOut (keeps : s.KeepsMarks kept r) {c : NameCall} (spares : c.Spares kept)
    {n : HeaderName} (handed : ((s.registry r).call c).1 = some n) : n.HandedOut kept := by
  obtain ⟨debug, calls, before, same⟩ := keeps.asked
  rw [same] at handed
  refine ⟨r, debug, calls ++ [c], ?_, ?_⟩
  · intro b mem
    rcases List.mem_append.mp mem with earlier | last
    · exact before b earlier
    · rwa [List.mem_singleton.mp last]
  · exact NameRegistry.mem_answers_iff.mpr ⟨calls, c, [], rfl, handed⟩

/-- A value that is stored by name goes under an instance of this name. -/
theorem KeepsMarks.nameFor (keeps : s.KeepsMarks kept r) (name : String) :
    (s.nameFor r name).1.HandedOut kept ∧
    nameKey (s.nameFor r name).1.text = nameKey name := by
  have handed : (s.nameFor r name).1.HandedOut kept :=
    keeps.handedOut (c := .getOrCreate name) (fun _ _ => rfl) rfl
  refine ⟨handed, ?_⟩
  rw [← handed.key]
  obtain ⟨debug, calls, _, same⟩ := keeps.asked
  have sound : (s.registry r).Sound := by
    rw [same]
    exact (NameRegistry.sound_create r debug).run calls
  have found : (((s.registry r).call (.getOrCreate name)).2).names.find? (nameKey name) =
      some (s.nameFor r name).1 := by
    refine NameRegistry.find?_of_seeks ?_ rfl
    simp [NameCall.seeks]
  exact ((sound.call _).keys _ _ found).1

end Server

namespace Writing

/-- The instances that are handed over by the caller. -/
def names : Writing → List HeaderName
  | store n _ _ | remove n => [n]
  | _ => []

/-- The caller hands over names that registries handed out, and leaves the marks of the given
standard names as they are. -/
structure Genuine (kept : List StandardName) (w : Writing) : Prop where
  names : ∀ n ∈ w.names, n.HandedOut kept
  calls : ∀ c ∈ w.calls, c.Spares kept

end Writing

/-- Seeded instances may be handed over, of whatever registry. -/
theorem Writing.genuine_of_seeded {w : Writing} {kept : List StandardName} (id : Nat)
    (names : ∀ n ∈ w.names, n ∈ StandardName.all.map (HeaderName.standard id))
    (spare : ∀ c ∈ w.calls, c.Spares kept) : w.Genuine kept := by
  refine ⟨?_, spare⟩
  intro n handed
  obtain ⟨m, _, rfl⟩ := List.mem_map.mp (names n handed)
  exact HeaderName.handedOut_standard kept id m

namespace Draft

variable {d : Draft} {w : Writing} {kept : List StandardName}

/-- The names in the header were handed out by registries, and its own registry keeps the marks of
the given standard names. -/
structure Genuine (kept : List StandardName) (d : Draft) : Prop where
  registry : d.server.KeepsMarks kept d.header.registry
  names : d.header.Genuine kept

/-- The shortcuts go by the same instances all along. -/
theorem standard_run [MediaTypes] (d : Draft) (l : List Writing) (m : StandardName) :
    (d.run l).header.standard m = d.header.standard m := by
  induction l generalizing d with
  | nil => rfl
  | cons w rest ih =>
    rw [run, ih, Header.standard, owner_step]
    rfl

namespace Genuine

theorem standard (d : Draft) (m : StandardName) : (d.header.standard m).HandedOut kept :=
  HeaderName.handedOut_standard kept _ m

variable [MediaTypes]

theorem under (genuine : d.Genuine kept) (proper : w.Genuine kept) {n : HeaderName}
    (mem : n ∈ d.under w) : n.HandedOut kept := by
  cases w with
  | store m value beside => exact proper.names n mem
  | named name value =>
    rw [List.mem_singleton.mp mem]
    exact (genuine.registry.nameFor name).1
  | _ =>
    obtain ⟨m, _, rfl⟩ := List.mem_map.mp mem
    exact Genuine.standard d m

theorem step (genuine : d.Genuine kept) (proper : w.Genuine kept) : (d.step w).Genuine kept := by
  obtain ⟨known, debug, calls, spare, same⟩ := genuine.registry
  obtain ⟨ran, size⟩ := registry_step rfl known w
  constructor
  · rw [owner_step]
    refine ⟨size ▸ known, debug, calls ++ w.calls, ?_, ?_⟩
    · intro c mem
      rcases List.mem_append.mp mem with earlier | now
      · exact spare c earlier
      · exact proper.calls c now
    · rw [ran, same, NameRegistry.run_append]
  · intro e mem
    rcases (d.stores_step w).origin mem with old | new
    · exact genuine.names e old
    · exact genuine.under proper new

theorem run {l : List Writing} (genuine : d.Genuine kept) (proper : ∀ w ∈ l, w.Genuine kept) :
    (d.run l).Genuine kept := by
  induction l generalizing d with
  | nil => exact genuine
  | cons w rest ih =>
    obtain ⟨first, later⟩ := List.forall_mem_cons.mp proper
    exact ih (genuine.step first) later

end Genuine

/-- A registry that was just made was not asked anything. -/
theorem keepsMarks_opened [MediaTypes] (kept : List StandardName) (s : Server) (debug : Bool)
    (h : Header) :
    (opened s debug h).server.KeepsMarks kept (opened s debug h).header.registry := by
  refine ⟨by simp [opened, Server.addRegistry], debug, [], by simp, ?_⟩
  exact (registry_opened s debug h []).2

theorem Genuine.opened [MediaTypes] (s : Server) (debug : Bool) {h : Header}
    (names : h.Genuine kept) :
    (opened s debug h).Genuine kept :=
  ⟨keepsMarks_opened kept s debug h, names⟩

end Draft

end Docroot
