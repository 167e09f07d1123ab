import Docroot.Proofs.Issuance

/-!
The entries of a header as its history leaves them.

All that is done with a header writes values behind the others and erases values that were written
before. What a header holds is told by this history alone: the writes that nothing later erased, in
the order in which they were made.
-/

namespace Docroot

/-- What happens to the entries of a header. -/
inductive Deed where
  /-- A value is written behind all others. -/
  | write (n : HeaderName) (value : String)
  /-- The values of a name are erased, whatever spelling they were written under. -/
  | erase (n : HeaderName)
  /-- Of the values of a name those are erased that read like the given one. -/
  | eraseAlike (n : HeaderName) (value : String)
  /-- The values are erased that may not be replayed. -/
  | eraseVolatile
  /-- All values are erased. -/
  | wipe

namespace Deed

/-- Whether an entry that was written before is erased. -/
def erases (e : HeaderName × String) : Deed → Bool
  | write _ _ => false
  | erase n => nameKey e.1.text = nameKey n.text
  | eraseAlike n value => nameKey e.1.text = nameKey n.text && e.2 = value
  | eraseVolatile => !e.1.replayable
  | wipe => true

def written : Deed → List (HeaderName × String)
  | write n value => [(n, value)]
  | _ => []

/-- A value is written in the place of all others of its name. -/
def replace (n : HeaderName) (value : String) : List Deed := [erase n, write n value]

theorem erases_erase {n : HeaderName} {e : HeaderName × String} :
    (erase n).erases e = true ↔ nameKey e.1.text = nameKey n.text := by
  simp only [erases, decide_eq_true_eq]

/-- The writes that nothing later erased, in the order in which they were made. -/
def survivors : List Deed → List (HeaderName × String)
  | [] => []
  | a :: later => (a.written.filter fun e => later.all fun b => !b.erases e) ++ survivors later

/-- What one more deed leaves of entries. -/
def apply (l : List (HeaderName × String)) (a : Deed) : List (HeaderName × String) :=
  (l.filter fun e => !a.erases e) ++ a.written

theorem survivors_snoc (l : List Deed) (a : Deed) :
    survivors (l ++ [a]) = apply (survivors l) a := by
  induction l with
  | nil => simp [survivors, apply]
  | cons b rest ih =>
    -- To every write of the list the new deed is one more that comes later.
    have both : (b.written.filter fun e => (rest ++ [a]).all fun c => !c.erases e) =
        (b.written.filter fun e => rest.all fun c => !c.erases e).filter fun e => !a.erases e := by
      simp [List.filter_filter, Bool.and_comm]
    rw [List.cons_append, survivors, ih, both, survivors, apply, apply, List.filter_append,
      List.append_assoc]

theorem survivors_append (l later : List Deed) :
    survivors (l ++ later) = later.foldl apply (survivors l) := by
  induction later generalizing l with
  | nil => simp
  | cons a rest ih =>
    rw [List.foldl_cons, ← survivors_snoc, ← ih, List.append_assoc]
    rfl

/-- Where nothing is erased, every write survives. -/
theorem survivors_writes (l : List (HeaderName × String)) :
    survivors (l.map fun e => .write e.1 e.2) = l := by
  induction l with
  | nil => rfl
  | cons e rest ih =>
    rw [List.map_cons, survivors, ih]
    simp [written, erases]

/-- Nothing is written or erased but entries of names with the given keys. -/
structure Within (touched : String → Bool) (a : Deed) : Prop where
  gone : ∀ e, a.erases e = true → touched (nameKey e.1.text) = true
  new : ∀ e ∈ a.written, touched (nameKey e.1.text) = true

theorem within_write {touched : String → Bool} {n : HeaderName} (value : String)
    (own : touched (nameKey n.text) = true) : (write n value).Within touched := by
  constructor
  · intro e gone
    cases gone
  · intro e mem
    rwa [List.mem_singleton.mp mem]

theorem within_erase {touched : String → Bool} {n : HeaderName}
    (own : touched (nameKey n.text) = true) : (erase n).Within touched := by
  constructor
  · intro e gone
    rw [erases_erase.mp gone]
    exact own
  · intro e mem
    cases mem

theorem within_eraseAlike {touched : String → Bool} {n : HeaderName} (value : String)
    (own : touched (nameKey n.text) = true) : (eraseAlike n value).Within touched := by
  constructor
  · intro e gone
    simp only [erases, Bool.and_eq_true, decide_eq_true_eq] at gone
    rw [gone.1]
    exact own
  · intro e mem
    cases mem

theorem within_replace {touched : String → Bool} {n : HeaderName} {value : String} {a : Deed}
    (own : touched (nameKey n.text) = true) (mem : a ∈ replace n value) : a.Within touched := by
  rcases List.mem_cons.mp mem with rfl | last
  · exact within_erase own
  · rw [List.mem_singleton.mp last]
    exact within_write value own

/-- The entries of all other names stay as they are, in their order. -/
theorem apply_untouched {touched : String → Bool} {l : List Deed}
    (within : ∀ a ∈ l, a.Within touched) (entries : List (HeaderName × String)) :
    (l.foldl apply entries).filter (fun e => !touched (nameKey e.1.text)) =
      entries.filter fun e => !touched (nameKey e.1.text) := by
  induction l generalizing entries with
  | nil => rfl
  | cons a rest ih =>
    obtain ⟨⟨gone, new⟩, later⟩ := List.forall_mem_cons.mp within
    have written : a.written.filter (fun e => !touched (nameKey e.1.text)) = [] := by
      rw [List.filter_eq_nil_iff]
      intro e mem
      simp [new e mem]
    have left (e : HeaderName × String) :
        (!touched (nameKey e.1.text) && !a.erases e) = !touched (nameKey e.1.text) := by
      cases erased : a.erases e with
      | false => simp
      | true => simp [gone e erased]
    rw [List.foldl_cons, ih later, apply, List.filter_append, written, List.append_nil,
      List.filter_filter]
    exact List.filter_congr fun e _ => left e

/-- The entries of one name stay as they are if it is not touched. -/
theorem apply_other {touched : String → Bool} {l : List Deed}
    (within : ∀ a ∈ l, a.Within touched) {key : String} (free : touched key = false)
    (entries : List (HeaderName × String)) :
    (l.foldl apply entries).filter (fun e => nameKey e.1.text = key) =
      entries.filter fun e => nameKey e.1.text = key := by
  have narrow (m : List (HeaderName × String)) : m.filter (fun e => nameKey e.1.text = key) =
      (m.filter fun e => !touched (nameKey e.1.text)).filter fun e => nameKey e.1.text = key := by
    rw [List.filter_filter]
    refine List.filter_congr ?_
    intro e _
    by_cases name : nameKey e.1.text = key
    · simp [name, free]
    · simp [name]
  rw [narrow, apply_untouched within, ← narrow]

end Deed

/-! ## What is done with a header, as deeds -/

namespace Header

/-! The look-ups of a name agree about its values. -/

theorem get?_eq_head? (h : Header) (n : HeaderName) : h.get? n = (h.values n).head? := by
  rw [get?, values, List.head?_map, List.head?_filter]

theorem has_iff (h : Header) (n : HeaderName) : h.has n = true ↔ h.values n ≠ [] := by
  simp [has, values]

theorem count_eq_length (h : Header) (n : HeaderName) : h.count n = (h.values n).length := by
  rw [count, values, List.length_map, List.countP_eq_length_filter]

/-- A removal drops as many values as it counts. -/
theorem length_remove (h : Header) (n : HeaderName) :
    (h.remove n).entries.length + h.count n = h.entries.length := by
  have parts := List.length_eq_countP_add_countP (fun e => e.1.agrees n) (l := h.entries)
  have left : (h.remove n).entries.length = h.entries.countP fun e => ¬e.1.agrees n := by
    rw [remove, ← List.countP_eq_length_filter]
    simp
  rw [left, count]
  omega

variable {kept : List StandardName} {h : Header} {n : HeaderName}

/-- The entries of the name with the given key. -/
def own (h : Header) (key : String) : List (HeaderName × String) :=
  h.entries.filter fun e => nameKey e.1.text = key

/-- The entries that a cookie call leaves: all but the copies of the cookie. -/
def withoutCookie (h : Header) (c : Cookie) : List (HeaderName × String) :=
  h.entries.filter fun e => !(e.1.agrees (h.standard .setCookie) && e.2 == c.text)

theorem entries_cookie (h : Header) (c : Cookie) :
    (h.setCookie c).entries = h.withoutCookie c ++ [(h.standard .setCookie, c.text)] := rfl

section Genuine

variable (names : h.Genuine kept) (handed : n.HandedOut kept)

include names handed

/-- Among names that were handed out, one finds its own by the spelling. -/
theorem agrees_of_names {e : HeaderName × String} (mem : e ∈ h.entries) :
    e.1.agrees n = decide (nameKey e.1.text = nameKey n.text) := by
  rw [Bool.eq_iff_iff, decide_eq_true_iff]
  exact (names e mem).agrees_iff handed

theorem filter_agrees :
    h.entries.filter (fun e => e.1.agrees n) = h.own (nameKey n.text) := by
  refine List.filter_congr ?_
  intro e mem
  exact agrees_of_names names handed mem

theorem values_eq : h.values n = (h.own (nameKey n.text)).map Prod.snd := by
  rw [values, filter_agrees names handed]

theorem entries_remove : (h.remove n).entries = Deed.apply h.entries (.erase n) := by
  have left : (h.entries.filter fun e => !e.1.agrees n) =
      h.entries.filter fun e => !(Deed.erase n).erases e := by
    refine List.filter_congr ?_
    intro e mem
    rw [agrees_of_names names handed mem, Deed.erases]
  exact left.trans (List.append_nil _).symm

theorem own_remove : (h.remove n).own (nameKey n.text) = [] := by
  rw [own, entries_remove names handed]
  simp [Deed.apply, Deed.erases, Deed.written]

theorem genuine_set (value : String) : (h.set n value).Genuine kept := by
  intro e mem
  rcases (h.stores_set n value).origin mem with old | new
  · exact names e old
  · rwa [List.mem_singleton.mp new]

theorem entries_replace (value : String) :
    (h.set n value).entries = (Deed.replace n value).foldl Deed.apply h.entries := by
  have written (l : List (HeaderName × String)) :
      Deed.apply l (.write n value) = l ++ [(n, value)] := by
    simp [Deed.apply, Deed.erases, Deed.written]
  rw [Deed.replace, List.foldl_cons, List.foldl_cons, ← entries_remove names handed, written]
  rfl

/-- Two names that are set one after the other. -/
theorem entries_replace_replace {m : HeaderName} (handed' : m.HandedOut kept)
    (value value' : String) :
    ((h.set n value).set m value').entries =
      (Deed.replace n value ++ Deed.replace m value').foldl Deed.apply h.entries := by
  rw [entries_replace (genuine_set names handed value) handed', entries_replace names handed,
    List.foldl_append]

/-- A value that is set is the one entry of its name. -/
theorem own_set (value : String) : (h.set n value).own (nameKey n.text) = [(n, value)] := by
  rw [own, entries_replace names handed]
  simp [Deed.replace, Deed.apply, Deed.erases, Deed.written]

theorem own_set_other (value : String) {key : String} (other : nameKey n.text ≠ key) :
    (h.set n value).own key = h.own key := by
  have within : ∀ a ∈ Deed.replace n value, a.Within fun k => k = nameKey n.text :=
    fun a mem => Deed.within_replace (decide_eq_true rfl) mem
  rw [own, entries_replace names handed]
  exact Deed.apply_other within (decide_eq_false other.symm) h.entries

end Genuine

theorem entries_setCookie (names : h.Genuine kept) (c : Cookie) :
    (h.setCookie c).entries = [Deed.eraseAlike (h.standard .setCookie) c.text,
      .write (h.standard .setCookie) c.text].foldl Deed.apply h.entries := by
  have handed : (h.standard .setCookie).HandedOut kept := HeaderName.handedOut_standard _ _ _
  have left : h.withoutCookie c = h.entries.filter fun e =>
      !(Deed.eraseAlike (h.standard .setCookie) c.text).erases e := by
    refine List.filter_congr ?_
    intro e mem
    rw [agrees_of_names names handed mem, Deed.erases]
    rfl
  rw [entries_cookie, left]
  simp [Deed.apply, Deed.erases, Deed.written]

end Header

namespace Writing

/-- The standard names under which a shortcut may store values. -/
def reach : Writing → List StandardName
  | status _ => [.status]
  | redirect _ _ => [.location, .status]
  | cookie _ => [.setCookie]
  | date _ => [.date]
  | serve _ => [.status, .contentType, .contentLength]
  | _ => []

/-- Whether values of the name with the given key may be written or erased. -/
def touches (key : String) : Writing → Bool
  | store n _ _ | remove n => nameKey n.text = key
  | named name _ => nameKey name = key
  | clear | reuse => true
  | w => w.reach.any fun m => nameKey m.text = key

theorem touches_of_reach {w : Writing} {m : StandardName} (mem : m ∈ w.reach) :
    w.touches (nameKey m.text) = true := by
  have among : (w.reach.any fun m' => nameKey m'.text = nameKey m.text) = true :=
    List.any_eq_true.mpr ⟨m, mem, decide_eq_true rfl⟩
  cases w with
  | status | redirect | cookie | date | serve => exact among
  | _ => cases mem

end Writing

namespace Draft

/-- What a step does to the entries of the header. -/
def deeds [MediaTypes] (d : Draft) : Writing → List Deed
  | .ask _ => []
  | .status text => Deed.replace (d.header.standard .status) text
  | .redirect url text =>
    Deed.replace (d.header.standard .location) url ++ Deed.replace (d.header.standard .status) text
  | .cookie c => [.eraseAlike (d.header.standard .setCookie) c.text,
    .write (d.header.standard .setCookie) c.text]
  | .date text => Deed.replace (d.header.standard .date) text
  | .serve p =>
    let n := d.server.node p
    match (d.server.respond p d.header).1 with
    | .error _ => []
    | .ok a =>
      if !n.present || n.isFolder then Deed.replace (d.header.standard .status) Status.notFound
      else Deed.replace (d.header.standard .contentType) (MediaType.contentType n.extension).1 ++
        Deed.replace (d.header.standard .contentLength) (Decimal.ofNat (a.stream.length?.getD 0))
  | .store n value beside => if beside then [.write n value] else Deed.replace n value
  | .named name value => Deed.replace (d.server.nameFor d.header.registry name).1 value
  | .remove n => [.erase n]
  | .clear => [.wipe]
  | .reuse => [.eraseVolatile]

/-- All that steps do to the entries, one after the other. -/
def history [MediaTypes] (d : Draft) : List Writing → List Deed
  | [] => []
  | w :: rest => d.deeds w ++ (d.step w).history rest

variable {d : Draft} {w : Writing}

section

variable [MediaTypes]

theorem entries_serve (genuine : d.Genuine []) (p : Nat) : (d.step (.serve p)).header.entries =
    (d.deeds (.serve p)).foldl Deed.apply d.header.entries := by
  have seeded (m : StandardName) : (d.header.standard m).HandedOut [] := Genuine.standard d m
  rcases answer : d.server.respond p d.header with ⟨e | a, s⟩
  · simp [step, deeds, answer]
  · by_cases none : (!(d.server.node p).present || (d.server.node p).isFolder) = true
    · rcases Server.respond_cases answer with ⟨_, rfl⟩ | ⟨there, _⟩
      · simp only [step, deeds, answer, none, if_true]
        exact Header.entries_replace (h := { d.header with status := Status.notFound })
          genuine.names (seeded .status) _
      · rw [none] at there
        cases there
    · have there : (d.server.node p).present = true ∧ (d.server.node p).isFolder = false := by
        simpa using none
      obtain ⟨body, rfl, _⟩ := Server.respond_file there.1 there.2 answer
      simp only [step, deeds, answer, none]
      exact Header.entries_replace_replace genuine.names (seeded .contentType)
        (seeded .contentLength) _ _

/-- A step changes the entries by its deeds, one after the other. -/
theorem entries_step (genuine : d.Genuine []) (proper : w.Genuine []) :
    (d.step w).header.entries = (d.deeds w).foldl Deed.apply d.header.entries := by
  have seeded (m : StandardName) : (d.header.standard m).HandedOut [] := Genuine.standard d m
  cases w with
  | ask c => rfl
  | status text =>
    exact Header.entries_replace (h := { d.header with status := text }) genuine.names
      (seeded .status) text
  | redirect url text =>
    exact Header.entries_replace_replace genuine.names (seeded .location) (seeded .status) url text
  | cookie c => exact Header.entries_setCookie genuine.names c
  | date text => exact Header.entries_replace genuine.names (seeded .date) text
  | serve p => exact entries_serve genuine p
  | store n value beside =>
    cases beside with
    | true => simp [step, deeds, Header.setWith, Header.append, Deed.apply, Deed.erases,
        Deed.written]
    | false =>
      exact Header.entries_replace genuine.names (proper.names n List.mem_cons_self) value
  | named name value =>
    exact Header.entries_replace genuine.names (genuine.registry.nameFor name).1 value
  | remove n => exact Header.entries_remove genuine.names (proper.names n List.mem_cons_self)
  | clear => simp [step, deeds, Header.clear, Deed.apply, Deed.erases, Deed.written]
  | reuse =>
    simp [step, deeds, Header.reusable_eq, Header.replayable, Deed.apply, Deed.erases,
      Deed.written]

theorem entries_run {l : List Writing} (genuine : d.Genuine []) (proper : ∀ w ∈ l, w.Genuine []) :
    (d.run l).header.entries = (d.history l).foldl Deed.apply d.header.entries := by
  induction l generalizing d with
  | nil => rfl
  | cons w rest ih =>
    obtain ⟨first, later⟩ := List.forall_mem_cons.mp proper
    rw [run, ih (genuine.step first) later, history, List.foldl_append, entries_step genuine first]

/-- The deeds of a step concern the names that it touches. -/
theorem deeds_within (genuine : d.Genuine []) (w : Writing) :
    ∀ a ∈ d.deeds w, a.Within fun key => w.touches key := by
  intro a mem
  have own {m : StandardName} (reached : m ∈ w.reach) :
      w.touches (nameKey (d.header.standard m).text) = true := Writing.touches_of_reach reached
  cases w with
  | ask c => cases mem
  | status text => exact Deed.within_replace (own List.mem_cons_self) mem
  | redirect url text =>
    rcases List.mem_append.mp mem with first | second
    · exact Deed.within_replace (own List.mem_cons_self) first
    · exact Deed.within_replace (own (List.mem_cons_of_mem _ List.mem_cons_self)) second
  | cookie c =>
    rcases List.mem_cons.mp mem with rfl | last
    · exact Deed.within_eraseAlike c.text (own List.mem_cons_self)
    · rw [List.mem_singleton.mp last]
      exact Deed.within_write c.text (own List.mem_cons_self)
  | date text => exact Deed.within_replace (own List.mem_cons_self) mem
  | serve p =>
    simp only [deeds] at mem
    split at mem
    · cases mem
    · split at mem
      · exact Deed.within_replace (own List.mem_cons_self) mem
      · rcases List.mem_append.mp mem with first | second
        · exact Deed.within_replace (own (by simp [Writing.reach])) first
        · exact Deed.within_replace (own (by simp [Writing.reach])) second
  | store n value beside =>
    have named : (Writing.store n value beside).touches (nameKey n.text) = true := by
      simp [Writing.touches]
    cases beside with
    | true =>
      rw [List.mem_singleton.mp mem]
      exact Deed.within_write value named
    | false => exact Deed.within_replace named mem
  | named name value =>
    refine Deed.within_replace ?_ mem
    simp [Writing.touches, (genuine.registry.nameFor name).2]
  | remove n =>
    rw [List.mem_singleton.mp mem]
    exact Deed.within_erase (by simp [Writing.touches])
  | clear | reuse => exact ⟨fun _ _ => rfl, fun _ _ => rfl⟩

/-- **No step changes the values of a name that it does not touch,** nor their order among the
values of all such names. -/
theorem untouched_step (genuine : d.Genuine []) (proper : w.Genuine []) :
    ((d.step w).header.entries.filter fun e => !w.touches (nameKey e.1.text)) =
      d.header.entries.filter fun e => !w.touches (nameKey e.1.text) := by
  rw [entries_step genuine proper]
  exact Deed.apply_untouched (deeds_within genuine w) d.header.entries

theorem own_step (genuine : d.Genuine []) (proper : w.Genuine []) {key : String}
    (free : w.touches key = false) : (d.step w).header.own key = d.header.own key := by
  rw [Header.own, entries_step genuine proper]
  exact Deed.apply_other (deeds_within genuine w) free d.header.entries

theorem values_step (genuine : d.Genuine []) (proper : w.Genuine []) {n : HeaderName}
    (handed : n.HandedOut []) (free : w.touches (nameKey n.text) = false) :
    (d.step w).header.values n = d.header.values n := by
  rw [Header.values_eq (genuine.step proper).names handed, Header.values_eq genuine.names handed,
    own_step genuine proper free]

/-- **The entries of a header are the surviving writes of its history.** Whatever is done with a
header, under names that any registries handed out: its entries are the writes of the whole history,
those that it started with first, in the order in which they were made, without those that were
erased later, by a write that takes the place of all others of its name, by a removal of the name,
however it was spelled, or by clearing. The look-up of a name gives the oldest of its surviving
values, or all of them in this order; a removal drops and counts just these. No step changes the
values of names that it does not touch, nor their order. -/
theorem entries_are_surviving_writes (d : Draft) (l : List Writing) (genuine : d.Genuine [])
    (proper : ∀ w ∈ l, w.Genuine []) :
    let h := (d.run l).header
    let left := Deed.survivors (d.header.entries.map (fun e => .write e.1 e.2) ++ d.history l)
    h.entries = left ∧ h.entries.length = left.length ∧
    (∀ n : HeaderName, n.HandedOut [] →
      let values := (left.filter fun e => nameKey e.1.text = nameKey n.text).map Prod.snd
      h.get? n = values.head? ∧ h.values n = values ∧ (h.has n = true ↔ values ≠ []) ∧
      h.count n = values.length ∧
      (h.remove n).entries = (left.filter fun e => nameKey e.1.text ≠ nameKey n.text) ∧
      (h.remove n).entries.length + h.count n = h.entries.length) ∧
    ∀ w : Writing, w.Genuine [] →
      (((d.run l).step w).header.entries.filter fun e => !w.touches (nameKey e.1.text)) =
        h.entries.filter fun e => !w.touches (nameKey e.1.text) := by
  intro h left
  have entries : h.entries = left := by
    show (d.run l).header.entries = Deed.survivors _
    rw [entries_run genuine proper, Deed.survivors_append, Deed.survivors_writes]
  have after := genuine.run proper
  refine ⟨entries, by rw [entries], ?_, fun w => untouched_step after⟩
  intro n handed values
  have all : h.values n = values := by
    rw [Header.values_eq after.names handed, Header.own, entries]
  have removed : (h.remove n).entries =
      left.filter fun e => nameKey e.1.text ≠ nameKey n.text := by
    rw [Header.entries_remove after.names handed, Deed.apply, entries]
    simp [Deed.erases, Deed.written]
  refine ⟨?_, all, ?_, ?_, removed, h.length_remove n⟩
  · rw [h.get?_eq_head?, all]
  · rw [h.has_iff, all]
  · rw [h.count_eq_length, all]

end

/-- A header that started with a value is redirected, and its names are spelled in many ways, some
by instances of another registry. -/
def respellings : List Writing := [
  .store (.standard 7 .eTag) "v1" true, .named " x-test" "1",
  .redirect "/login" "301 Moved Permanently", .named "ETAG " "v2",
  .store (.standard 7 .location) "/other" true, .remove (.standard 7 .status)]

attribute [local instance] MediaTypes.familiar

/-- The older values of `ETag` and the value of `Status` are gone, and both of `Location` are left,
in their order. -/
theorem respellings_leave :
    let start := opened default false { Header.ok 0 with entries := [(.standard 7 .eTag, "v0")] }
    let h := (start.run respellings).header
    start.Genuine [] ∧ (∀ w ∈ respellings, w.Genuine []) ∧
    h.entries = [(⟨0, 34, 34, " x-test", "x-test", true⟩, "1"), (.standard 0 .location, "/login"),
      (.standard 0 .eTag, "v2"), (.standard 7 .location, "/other")] ∧
    h.get? (.standard 3 .location) = some "/login" ∧
    h.values (.standard 3 .location) = ["/login", "/other"] := by
  intro start h
  have genuine : start.Genuine [] := by
    refine Genuine.opened default false ?_
    intro e mem
    rw [List.mem_singleton.mp mem]
    exact HeaderName.handedOut_standard _ _ _
  have names : ∀ w ∈ respellings, ∀ n ∈ w.names,
      n ∈ StandardName.all.map (HeaderName.standard 7) := by decide +kernel
  have proper : ∀ w ∈ respellings, w.Genuine [] := by
    intro w mem
    exact Writing.genuine_of_seeded 7 (names w mem) fun c _ => c.spares_nil
  have left : Deed.survivors (start.header.entries.map (fun e => .write e.1 e.2) ++
      start.history respellings) = [(⟨0, 34, 34, " x-test", "x-test", true⟩, "1"),
      (.standard 0 .location, "/login"), (.standard 0 .eTag, "v2"),
      (.standard 7 .location, "/other")] := by
    decide +kernel
  have result := entries_are_surviving_writes start respellings genuine proper
  rw [left] at result
  obtain ⟨entries, _, lookups, _⟩ := result
  obtain ⟨first, all, _⟩ := lookups (.standard 3 .location) (HeaderName.handedOut_standard _ _ _)
  refine ⟨genuine, proper, entries, ?_, ?_⟩
  · rw [first]
    decide +kernel
  · rw [all]
    decide +kernel

end Draft

end Docroot
