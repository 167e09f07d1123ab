import Docroot.Proofs.Framing
import Docroot.Proofs.Numbering

/-!
The marks of names, and the values that are replayed.

Whether a value is replayed is told by the mark of the instance under which it was stored. To
register a name anew gives it another mark wherever it is looked up. The seeded instance of a
standard name stays as it is, and the shortcuts of a header store their values under seeded
instances.
-/

namespace Docroot

namespace Header

variable {h h' : Header} {names : List HeaderName}

/-- Values were stored under the given names, behind what is left of the other entries. -/
def Stores (h : Header) (names : List HeaderName) (h' : Header) : Prop :=
  ∃ kept stored, h'.entries = kept ++ stored ∧ kept.Sublist h.entries ∧
    stored.map Prod.fst = names

theorem Stores.origin (stores : h.Stores names h') {e : HeaderName × String}
    (mem : e ∈ h'.entries) : e ∈ h.entries ∨ e.1 ∈ names := by
  obtain ⟨kept, stored, all, left, rfl⟩ := stores
  rw [all] at mem
  rcases List.mem_append.mp mem with old | new
  · exact .inl (left.subset old)
  · exact .inr (List.mem_map_of_mem new)

theorem stores_nothing (fewer : h'.entries.Sublist h.entries) : h.Stores [] h' :=
  ⟨h'.entries, [], (List.append_nil _).symm, fewer, rfl⟩

theorem stores_append (h : Header) (n : HeaderName) (value : String) :
    h.Stores [n] (h.append n value) :=
  ⟨h.entries, [(n, value)], rfl, .refl _, rfl⟩

theorem stores_set (h : Header) (n : HeaderName) (value : String) :
    h.Stores [n] (h.set n value) :=
  ⟨h.apart [n], [(n, value)], h.entries_set n value, List.filter_sublist, rfl⟩

theorem stores_setWith (h : Header) (n : HeaderName) (value : String) (beside : Bool) :
    h.Stores [n] (h.setWith n value beside) := by
  cases beside with
  | true => exact h.stores_append n value
  | false => exact h.stores_set n value

theorem stores_setStatus (h : Header) (text : String) :
    h.Stores [h.standard .status] (h.setStatus text) :=
  stores_set { h with status := text } _ text

theorem stores_redirect (h : Header) (url text : String) :
    h.Stores [h.standard .location, h.standard .status] (h.redirect url text) := by
  have differ : (h.standard .location).agrees (h.standard .status) = false := by
    rw [← Bool.not_eq_true, standard, standard, HeaderName.standard_agrees_iff]
    decide
  exact ⟨_, _, entries_set_set differ, List.filter_sublist, rfl⟩

theorem stores_setCookie (h : Header) (c : Cookie) :
    h.Stores [h.standard .setCookie] (h.setCookie c) :=
  ⟨_, [(h.standard .setCookie, c.text)], rfl, List.filter_sublist, rfl⟩

theorem stores_ofContent (h : Header) (type : String) (isText : Bool) (body : Utf8.Bytes) :
    h.Stores h.describing (Response.ofContent h type isText body).header :=
  ⟨_, _, h.entries_ofContent type isText body, List.filter_sublist, rfl⟩

/-- What may be replayed is what was stored under a name with the mark. -/
theorem reusable_eq (h : Header) : h.reusable = { h with entries := h.replayable } := by
  have all (l : List (HeaderName × String)) (r : Header) :
      l.foldl (fun r e => r.append e.1 e.2) r = { r with entries := r.entries ++ l } := by
    induction l generalizing r with
    | nil => simp
    | cons e rest ih =>
      rw [List.foldl_cons, ih]
      simp [append]
  rw [reusable, all]
  rfl

theorem mem_reusable_iff {e : HeaderName × String} :
    e ∈ h.reusable.entries ↔ e ∈ h.entries ∧ e.1.replayable = true := by
  rw [reusable_eq]
  exact List.mem_filter

theorem mem_volatile_iff {e : HeaderName × String} :
    e ∈ h.volatile ↔ e ∈ h.entries ∧ e.1.replayable = false := by
  simp [volatile]

end Header

/-! ## What look-ups of a standard name find -/

namespace NameRegistry

theorem id_run (r : NameRegistry) (calls : List NameCall) : (r.run calls).id = r.id := by
  induction calls generalizing r with
  | nil => rfl
  | cons c rest ih =>
    rw [run, ih]
    rcases r.call_cases c with ⟨same, _⟩ | ⟨n, _, _, registers, _⟩
    · rw [same]
    · exact registers.id

/-- The instance of a standard name that look-ups find after calls of a new registry: the seeded
one, or the one that the last call made which registered the name anew. -/
structure Current (id : Nat) (debug : Bool) (calls : List NameCall) (m : StandardName)
    (n : HeaderName) : Prop where
  found : ((create id debug).run calls).get? m.text = some n
  agrees : n.agrees (.standard id m) = true
  number : n.number = (HeaderName.standard id m).number
  seeded : (∀ c ∈ calls, c.overrides (nameKey m.text) = false) → n = .standard id m
  anew : ∀ early name mark late, calls = early ++ .override name mark :: late →
    nameKey name = nameKey m.text → (∀ c ∈ late, c.overrides (nameKey m.text) = false) →
    n = (((create id debug).run early).override name mark).1 ∧ n.replayable = mark ∧
      n.sameInstance (.standard id m) = false

theorem exists_current (id : Nat) (debug : Bool) (calls : List NameCall) (m : StandardName) :
    ∃ n, Current id debug calls m n := by
  have begun := sound_create id debug
  have sound := begun.run calls
  have seed (l : List NameCall) : ((create id debug).run l).standard m = .standard id m := by
    rw [standard, id_run]
    rfl
  obtain ⟨n, there, number⟩ := (sound.standard m).number
  rw [seed] at there number
  refine ⟨n, there, ?_, number, ?_, ?_⟩
  · rw [HeaderName.agrees_iff]
    exact (sound.keys _ n there).1
  · intro keep
    have stays := find?_run keep (find?_create id debug m)
    exact Option.some.inj (there.symm.trans stays)
  · rintro early name mark late rfl same keep
    have overrides : (NameCall.override name mark).overrides (nameKey m.text) = true := by
      simp [NameCall.overrides, same]
    obtain ⟨n', made, put, serial⟩ := (create id debug).find?_after_override overrides keep
    obtain rfl : n = n' := Option.some.inj (there.symm.trans put)
    have made : n = (((create id debug).run early).override name mark).1 :=
      (Option.some.inj made).symm
    refine ⟨made, ?_, HeaderName.sameInstance_of_lt ?_⟩
    · rw [made]
      rfl
    · rw [serial, ← seed early]
      exact ((begun.run early).standard m).serial

/-- A look-up of a known name registers nothing. -/
theorem getOrCreate_of_get? {r : NameRegistry} {name : String} {n : HeaderName}
    (known : r.get? name = some n) : r.getOrCreate name = (n, r) := by
  rw [getOrCreate, known]

end NameRegistry

/-! ## Registries of a server -/

namespace Server

variable {s : Server} {r : Nat}

/-- The server after a call of one of its registries. -/
def ask (s : Server) (r : Nat) : NameCall → Server
  | .getOrCreate name => (s.nameFor r name).2
  | .override name replayable => (s.overrideName r name replayable).2
  | .get _ | .standard _ => s

theorem registry_setRegistry (known : r < s.registries.size) (reg : NameRegistry) :
    (s.setRegistry r reg).registry r = reg := by
  rw [registry, setRegistry, getD_setIfInBounds, if_pos ⟨rfl, known⟩]

theorem registry_ask (known : r < s.registries.size) (c : NameCall) :
    (s.ask r c).registry r = ((s.registry r).call c).2 := by
  cases c with
  | get name => rfl
  | standard m => rfl
  | override name replayable => exact registry_setRegistry known _
  | getOrCreate name =>
    simp only [ask, nameFor]
    split
    · exact registry_setRegistry known _
    · exact registry_setRegistry known _

theorem size_registries_ask (s : Server) (r : Nat) (c : NameCall) :
    (s.ask r c).registries.size = s.registries.size := by
  cases c with
  | get name => rfl
  | standard m => rfl
  | override name replayable => exact Array.size_setIfInBounds
  | getOrCreate name =>
    simp only [ask, nameFor]
    split
    · exact Array.size_setIfInBounds
    · exact Array.size_setIfInBounds

theorem Goes.registries {P : Effect → Prop} {t : Server} (goes : Goes P s t) :
    t.registries = s.registries := by
  induction goes with
  | stay => rfl
  | step e _ _ _ ih =>
    rw [← ih]
    cases e <;> rfl

/-- An answer to a path is that of a missing one, or that of a file with some content. -/
theorem respond_cases [MediaTypes] {s t : Server} {p : Nat} {h : Header} {a : Response}
    (done : s.respond p h = (.ok a, t)) :
    let none := !(s.node p).present || (s.node p).isFolder
    (none = true ∧ a = .missing h) ∨
    (none = false ∧ ∃ type isText body, a = .ofContent h type isText body) := by
  intro none
  cases missing : none with
  | true =>
    rw [respond_eq, if_pos missing] at done
    cases done
    exact .inl ⟨rfl, rfl⟩
  | false =>
    have there : (s.node p).present = true ∧ (s.node p).isFolder = false := by
      simpa [none] using missing
    obtain ⟨body, content, _⟩ := respond_file there.1 there.2 done
    exact .inr ⟨rfl, _, _, body, content⟩

end Server

/-! ## Headers in the making -/

/-- What is done with a header while a response is made. -/
inductive Writing where
  /-- A call of the registry of the header. -/
  | ask (c : NameCall)
  | status (text : String)
  | redirect (url text : String)
  | cookie (c : Cookie)
  | date (text : String)
  /-- Serves a path under the header, and goes on with the header of the response. -/
  | serve (p : Nat)
  /-- Stores a value under an instance, beside the others of its name or in their place. -/
  | store (n : HeaderName) (value : String) (beside : Bool)
  /-- Stores a value under the instance that the registry has for a name. -/
  | named (name value : String)
  | remove (n : HeaderName)
  | clear
  /-- Goes on with the entries that may be replayed. -/
  | reuse

/-- A header in the making, and the server that has its registry. -/
structure Draft where
  server : Server
  header : Header

namespace Writing

/-- Whether this is one of the shortcuts for standard names. -/
def shortcut : Writing → Bool
  | status _ | redirect _ _ | cookie _ | date _ | serve _ => true
  | _ => false

/-- The calls of the registry that this makes. -/
def calls : Writing → List NameCall
  | ask c => [c]
  | named name _ => [.getOrCreate name]
  | _ => []

end Writing

namespace Draft

variable {d : Draft} {w : Writing}

section

variable [MediaTypes]

def step (d : Draft) : Writing → Draft
  | .ask c => { d with server := d.server.ask d.header.registry c }
  | .status text => { d with header := d.header.setStatus text }
  | .redirect url text => { d with header := d.header.redirect url text }
  | .cookie c => let (h, s) := d.server.setCookie d.header c; ⟨s, h⟩
  | .date text => { d with header := d.header.setDate text }
  | .serve p =>
    match d.server.respond p d.header with
    | (.ok r, s) => ⟨s, r.header⟩
    | (.error _, s) => { d with server := s }
  | .store n value beside => { d with header := d.header.setWith n value beside }
  | .named name value => let (h, s) := d.server.setNamed d.header name value; ⟨s, h⟩
  | .remove n => { d with header := d.header.remove n }
  | .clear => { d with header := d.header.clear }
  | .reuse => { d with header := d.header.reusable }

def run (d : Draft) : List Writing → Draft
  | [] => d
  | w :: rest => (d.step w).run rest

/-- The standard names under which a shortcut stores values. -/
def standards (d : Draft) : Writing → List StandardName
  | .status _ => [.status]
  | .redirect _ _ => [.location, .status]
  | .cookie _ => [.setCookie]
  | .date _ => [.date]
  | .serve p =>
    let n := d.server.node p
    match (d.server.respond p d.header).1 with
    | .ok _ => if !n.present || n.isFolder then [.status] else [.contentType, .contentLength]
    | .error _ => []
  | _ => []

/-- The instances under which values are stored. -/
def under (d : Draft) : Writing → List HeaderName
  | .store n _ _ => [n]
  | .named name _ => [(d.server.nameFor d.header.registry name).1]
  | w => (d.standards w).map d.header.standard

theorem under_shortcut (shortcut : w.shortcut = true) :
    d.under w = (d.standards w).map d.header.standard := by
  cases w with
  | store n value beside => cases shortcut
  | named name value => cases shortcut
  | _ => rfl

/-- A shortcut stores under the instances with which the registry of the header started. -/
theorem seeded_of_shortcut {n : HeaderName} (shortcut : w.shortcut = true) (mem : n ∈ d.under w) :
    ∃ m ∈ d.standards w, n = .standard d.header.registry m := by
  rw [under_shortcut shortcut] at mem
  obtain ⟨m, own, same⟩ := List.mem_map.mp mem
  exact ⟨m, own, same.symm⟩

/-- A path that is served leaves its type and its length in the header, or its status. -/
theorem stores_serve (d : Draft) (p : Nat) :
    d.header.Stores (d.under (.serve p)) (d.step (.serve p)).header := by
  rcases answer : d.server.respond p d.header with ⟨e | a, s⟩
  · simp only [under, standards, step, answer]
    exact Header.stores_nothing (.refl _)
  · rcases Server.respond_cases answer with ⟨none, rfl⟩ | ⟨there, type, isText, body, rfl⟩
    · simp only [under, standards, step, answer, none, if_true]
      exact d.header.stores_setStatus _
    · simp only [under, standards, step, answer, there]
      exact d.header.stores_ofContent type isText body

/-- Each step stores values under its instances, and changes no other entry than by dropping it. -/
theorem stores_step (d : Draft) (w : Writing) : d.header.Stores (d.under w) (d.step w).header := by
  cases w with
  | ask c => exact Header.stores_nothing (.refl _)
  | status text => exact d.header.stores_setStatus text
  | redirect url text => exact d.header.stores_redirect url text
  | cookie c => exact d.header.stores_setCookie c
  | date text => exact d.header.stores_set _ text
  | serve p => exact d.stores_serve p
  | store n value beside => exact d.header.stores_setWith n value beside
  | named name value => exact d.header.stores_set _ value
  | remove n => exact Header.stores_nothing List.filter_sublist
  | clear => exact Header.stores_nothing (List.nil_sublist _)
  | reuse =>
    refine Header.stores_nothing ?_
    simp only [step, Header.reusable_eq]
    exact List.filter_sublist

/-- An entry was there from the start, or some step stored it under one of its instances. -/
theorem origin_run {l : List Writing} {e : HeaderName × String}
    (mem : e ∈ (d.run l).header.entries) : e ∈ d.header.entries ∨
      ∃ before w after, l = before ++ w :: after ∧ e.1 ∈ (d.run before).under w := by
  induction l generalizing d with
  | nil => exact .inl mem
  | cons w rest ih =>
    rcases ih mem with early | ⟨before, u, after, rfl, stored⟩
    · rcases (d.stores_step w).origin early with old | new
      · exact .inl old
      · exact .inr ⟨[], w, rest, rfl, new⟩
    · exact .inr ⟨w :: before, u, after, rfl, stored⟩

theorem owner_step (d : Draft) (w : Writing) :
    (d.step w).header.registry = d.header.registry := by
  cases w with
  | serve p =>
    simp only [step]
    split
    · rename_i answer
      rcases Server.respond_cases answer with ⟨_, rfl⟩ | ⟨_, type, isText, body, rfl⟩
      · rfl
      · rfl
    · rfl
  | store n value beside => cases beside <;> rfl
  | reuse => simp only [step, Header.reusable_eq]
  | _ => rfl

/-- A step changes the registry of its header by its calls, and by nothing else. -/
theorem registry_step {r : Nat} (owner : d.header.registry = r)
    (known : r < d.server.registries.size) (w : Writing) :
    (d.step w).server.registry r = (d.server.registry r).run w.calls ∧
    (d.step w).server.registries.size = d.server.registries.size := by
  subst owner
  have kept {s : Server} (same : s.registries = d.server.registries) :
      s.registry d.header.registry = d.server.registry d.header.registry ∧
      s.registries.size = d.server.registries.size := by
    rw [Server.registry, same]
    exact ⟨rfl, rfl⟩
  cases w with
  | ask c => exact ⟨Server.registry_ask known c, Server.size_registries_ask _ _ c⟩
  | named name value =>
    exact ⟨Server.registry_ask known (.getOrCreate name),
      d.server.size_registries_ask _ (.getOrCreate name)⟩
  | cookie c =>
    refine kept ?_
    simp only [step, Server.setCookie]
    split <;> rfl
  | serve p =>
    refine kept ?_
    have goes := (d.server.respond_goes p d.header).registries
    simp only [step]
    split
    · rename_i answer
      rwa [answer] at goes
    · rename_i answer
      rwa [answer] at goes
  | _ => exact kept rfl

/-- The calls of a registry that steps make. -/
def callsOf (l : List Writing) : List NameCall := l.flatMap Writing.calls

theorem registry_run {r : Nat} (owner : d.header.registry = r)
    (known : r < d.server.registries.size) (l : List Writing) :
    (d.run l).header.registry = r ∧
    (d.run l).server.registry r = (d.server.registry r).run (callsOf l) := by
  induction l generalizing d with
  | nil => exact ⟨owner, rfl⟩
  | cons w rest ih =>
    obtain ⟨first, size⟩ := registry_step owner known w
    obtain ⟨same, later⟩ := ih ((d.owner_step w).trans owner) (size ▸ known)
    refine ⟨same, ?_⟩
    rw [run, later, first, ← NameRegistry.run_append]
    rfl

/-- A draft under a registry that was just made. -/
def opened (s : Server) (debug : Bool) (h : Header) : Draft :=
  ⟨(s.addRegistry debug).2, { h with registry := (s.addRegistry debug).1 }⟩

theorem registry_opened (s : Server) (debug : Bool) (h : Header) (l : List Writing) :
    let d := (opened s debug h).run l
    d.header.registry = s.registries.size ∧
    d.server.registry s.registries.size =
      (NameRegistry.create s.registries.size debug).run (callsOf l) := by
  have known : s.registries.size < (opened s debug h).server.registries.size := by
    simp [opened, Server.addRegistry]
  have new : (opened s debug h).server.registry s.registries.size =
      .create s.registries.size debug := by
    simp [opened, Server.addRegistry, Server.registry]
  obtain ⟨owner, registry⟩ :=
    registry_run (d := opened s debug h) (r := s.registries.size) rfl known l
  refine ⟨owner, ?_⟩
  rw [registry, new]

/-- **To register a standard name anew reaches look-ups by its text, and not the shortcuts.**
Whatever is done with a header and with its registry: the seeded instance of a standard name stays
as it is, and a look-up finds this instance as long as the name was not registered anew, and the
instance of the last such call afterwards, which agrees with it and has the same number. A value
that is stored by name goes under the instance of the look-up. The shortcuts store under seeded
instances, so that what they stored is replayed from a snapshot if the standard name is replayable,
and not otherwise. -/
theorem overrides_pass_shortcuts_by (s : Server) (debug : Bool) (h : Header) (l : List Writing) :
    let r := s.registries.size
    let start := opened s debug h
    let d := start.run l
    (d.server.registry d.header.registry = (NameRegistry.create r debug).run (callsOf l) ∧
      ∀ m, (d.server.registry d.header.registry).standard m = .standard r m) ∧
    (∀ m, ∃ n, NameRegistry.Current r debug (callsOf l) m n ∧
      ∀ name value, nameKey name = nameKey m.text → d.under (.named name value) = [n]) ∧
    (∀ w, d.header.Stores (d.under w) (d.step w).header ∧
      (w.shortcut = true → d.under w = (d.standards w).map (.standard r))) ∧
    ∀ k isText, ∃ x t, d.server.freeze (.fresh ⟨d.header, .known k, isText⟩) = (.ok x, t) ∧
      x.header = d.header ∧ ∀ e ∈ x.header.entries,
        (e ∈ x.header.reusable.entries ↔ e.1.replayable = true) ∧
        (e ∈ x.header.volatile ↔ e.1.replayable = false) ∧
        (e ∈ h.entries ∨ ∃ before w after, l = before ++ w :: after ∧
          e.1 ∈ (start.run before).under w ∧
          (w.shortcut = true → ∃ m ∈ (start.run before).standards w, e.1 = .standard r m ∧
            (e ∈ x.header.reusable.entries ↔ m.replayable = true))) := by
  intro r start d
  obtain ⟨owner, registry⟩ : d.header.registry = r ∧
      d.server.registry r = (NameRegistry.create r debug).run (callsOf l) :=
    registry_opened s debug h l
  refine ⟨?_, ?_, ?_, ?_⟩
  · rw [owner, registry]
    refine ⟨rfl, ?_⟩
    intro m
    rw [NameRegistry.standard, NameRegistry.id_run]
    rfl
  · intro m
    obtain ⟨n, current⟩ := NameRegistry.exists_current r debug (callsOf l) m
    refine ⟨n, current, ?_⟩
    intro name value same
    have known : (d.server.registry r).get? name = some n := by
      rw [registry, NameRegistry.get?, same]
      exact current.found
    simp only [under, owner, Server.nameFor, NameRegistry.getOrCreate_of_get? known]
  · intro w
    refine ⟨d.stores_step w, ?_⟩
    intro shortcut
    rw [under_shortcut shortcut, ← owner]
    rfl
  · intro k isText
    obtain ⟨x, t, frozen, captures⟩ :=
      d.server.freeze_known (r := ⟨d.header, .known k, isText⟩) rfl
    have header : x.header = d.header := captures.header
    refine ⟨x, t, frozen, header, ?_⟩
    intro e mem
    have replayed : e ∈ x.header.reusable.entries ↔ e.1.replayable = true := by
      rw [Header.mem_reusable_iff, and_iff_right mem]
    refine ⟨replayed, ?_, ?_⟩
    · rw [Header.mem_volatile_iff, and_iff_right mem]
    · rw [header] at mem
      rcases origin_run mem with first | ⟨before, w, after, split, stored⟩
      · exact .inl first
      · refine .inr ⟨before, w, after, split, stored, ?_⟩
        intro shortcut
        obtain ⟨m, own, same⟩ := seeded_of_shortcut shortcut stored
        have same : e.1 = .standard r m := by
          rw [same, (registry_opened s debug h before).1]
        refine ⟨m, own, same, ?_⟩
        rw [replayed, same]
        rfl

end

/-- Cookies are made replayable, and then one cookie is stored by its name, and one by the
shortcut. -/
def twoCookies : List Writing :=
  [.ask (.override "Set-Cookie" true), .named "set-cookie" "b=2",
    .cookie { name := "a", value := "1" }]

attribute [local instance] MediaTypes.familiar

/-- The cookie that was stored by its name is replayed, and the one of the shortcut is not. -/
theorem cookie_by_name_replayed :
    let d := (opened default false (Header.ok 0)).run twoCookies
    ∃ n x t, (d.server.registry d.header.registry).get? "Set-Cookie" = some n ∧
      n.replayable = true ∧ n.sameInstance (.standard 0 .setCookie) = false ∧
      d.server.freeze (.fresh ⟨d.header, .known (.new []), true⟩) = (.ok x, t) ∧
      (n, "b=2") ∈ x.header.reusable.entries ∧
      (HeaderName.standard 0 .setCookie, "a=1") ∈ x.header.volatile := by
  intro d
  obtain ⟨⟨registry, _⟩, lookups, _, frozen⟩ :=
    overrides_pass_shortcuts_by default false (Header.ok 0) twoCookies
  obtain ⟨n, current, _⟩ := lookups .setCookie
  obtain ⟨made, replayable, other⟩ :=
    current.anew [] "Set-Cookie" true [.getOrCreate "set-cookie"] rfl rfl (by
      simp [NameCall.overrides])
  obtain ⟨x, t, froze, header, entries⟩ := frozen (.new []) true
  have found : (d.server.registry d.header.registry).get? "Set-Cookie" = some n := by
    rw [registry]
    exact current.found
  have stored : d.header.entries = [(((NameRegistry.create 0 false).override "Set-Cookie" true).1,
      "b=2"), (.standard 0 .setCookie, "a=1")] := by
    decide +kernel
  have all : x.header.entries = [(n, "b=2"), (.standard 0 .setCookie, "a=1")] := by
    rw [header, stored, made]
    rfl
  refine ⟨n, x, t, found, replayable, other, froze, ?_, ?_⟩
  · refine (entries (n, "b=2") ?_).1.mpr replayable
    simp [all]
  · refine (entries (.standard 0 .setCookie, "a=1") ?_).2.1.mpr rfl
    simp [all]

/-- The shortcut for cookies does not see that cookies were made replayable: the look-up finds
another instance than the seeded one, and a cookie is stored under the seeded one and not
replayed. -/
theorem cookie_stays_volatile :
    let d := (opened default false (Header.ok 0)).run
      [.ask (.override "Set-Cookie" true), .cookie { name := "a", value := "1" }]
    let reg := d.server.registry d.header.registry
    (∃ n, reg.get? StandardName.setCookie.text = some n ∧ n.replayable = true ∧
      n.sameInstance (reg.standard .setCookie) = false) ∧
    d.header.entries = [(reg.standard .setCookie, "a=1")] ∧
    (reg.standard .setCookie).replayable = false ∧ d.header.reusable.entries = [] := by
  refine ⟨⟨⟨0, 34, 29, "Set-Cookie", "set-cookie", true⟩, ?_, rfl, ?_⟩, ?_, rfl, ?_⟩
  · decide +kernel
  · decide +kernel
  · decide +kernel
  · decide +kernel

end Draft

end Docroot
