import Docroot.Proofs.History

/-!
What is replayed of a header.

The marks of the names split the entries of a snapshot into those that are replayed and those that
belong to one delivery, each part in its order. Cookies, dates and ages are never replayed, unless
their names were registered anew. The entry of `Status` is replayed, and tells the status line as it
did before.
-/

namespace Docroot

/-! ## The two parts of a list -/

section Merged

variable {α : Type}

/-- Two lists put together to one, each of them in its order. -/
inductive Merged : List α → List α → List α → Prop
  | nil : Merged [] [] []
  | left {a : α} {l r m : List α} : Merged l r m → Merged (a :: l) r (a :: m)
  | right {a : α} {l r m : List α} : Merged l r m → Merged l (a :: r) (a :: m)

theorem merged_filter (p : α → Bool) (m : List α) :
    Merged (m.filter p) (m.filter fun a => !p a) m := by
  induction m with
  | nil => exact .nil
  | cons a rest ih =>
    by_cases own : p a = true
    · simpa [own] using ih.left
    · simpa [own] using ih.right

/-- A list has just one part that passes a test and one that does not. -/
theorem merged_iff {p : α → Bool} {l r m : List α} :
    (Merged l r m ∧ (∀ a ∈ l, p a = true) ∧ ∀ a ∈ r, p a = false) ↔
      l = m.filter p ∧ r = m.filter fun a => !p a := by
  constructor
  · rintro ⟨merged, pass, fail⟩
    induction merged with
    | nil => exact ⟨rfl, rfl⟩
    | left _ ih =>
      obtain ⟨own, pass⟩ := List.forall_mem_cons.mp pass
      obtain ⟨first, second⟩ := ih pass fail
      simp [own, ← first, ← second]
    | right _ ih =>
      obtain ⟨own, fail⟩ := List.forall_mem_cons.mp fail
      obtain ⟨first, second⟩ := ih pass fail
      simp [own, ← first, ← second]
  · rintro ⟨rfl, rfl⟩
    refine ⟨merged_filter p m, ?_, ?_⟩
    · intro a mem
      exact (List.mem_filter.mp mem).2
    · intro a mem
      simpa using (List.mem_filter.mp mem).2

end Merged

/-! ## Volatile names -/

namespace StandardName

/-- The standard names whose values belong to one delivery. -/
def volatile : List StandardName := [.setCookie, .date, .age]

theorem mem_volatile_iff (m : StandardName) : m ∈ volatile ↔ m.replayable = false := by
  cases m <;> decide

end StandardName

namespace Header

variable (h : Header)

/-- What may be replayed may be replayed once more, and nothing of it is volatile. -/
theorem reusable_reusable : h.reusable.reusable = h.reusable ∧ h.reusable.volatile = [] := by
  constructor
  · rw [reusable_eq, reusable_eq]
    simp [replayable]
  · rw [volatile, List.filter_eq_nil_iff]
    intro e mem
    simp [(mem_reusable_iff.mp mem).2]

end Header

namespace Draft

/-- **The values that are replayed, and those that are not, are the two parts of what was
captured.** The header that a snapshot replays has its status and its version. Its entries and the
volatile ones are the one way to part the captured entries by their marks so that both parts
together, each in its order, give back the captured entries. What is replayed can be frozen again,
and then all of it is replayed and nothing is volatile. Whatever was done with a header, under names
of registries of which none registered `Set-Cookie`, `Date` or `Age` anew: nothing under these names
is replayed, however the names were spelled and however the values were stored. -/
theorem replay_leaves_volatile_out [MediaTypes] :
    (∀ x : Snapshot,
      x.header.reusable.status = x.header.status ∧ x.header.reusable.format = x.header.format ∧
      (∀ a b, (Merged a b x.header.entries ∧ (∀ e ∈ a, e.1.replayable = true) ∧
        ∀ e ∈ b, e.1.replayable = false) ↔
          a = x.header.reusable.entries ∧ b = x.header.volatile) ∧
      ∀ (s : Server) k isText, ∃ y t,
        s.freeze (.fresh ⟨x.header.reusable, .known k, isText⟩) = (.ok y, t) ∧
        y.header.reusable = x.header.reusable ∧ y.header.volatile = []) ∧
    ∀ (d : Draft) (l : List Writing), d.Genuine StandardName.volatile →
      (∀ w ∈ l, w.Genuine StandardName.volatile) →
      ∀ (s : Server) k isText, ∃ x t,
        s.freeze (.fresh ⟨(d.run l).header, .known k, isText⟩) = (.ok x, t) ∧
        x.header = (d.run l).header ∧
        ∀ e ∈ x.header.reusable.entries, ∀ m ∈ StandardName.volatile,
          nameKey e.1.text ≠ nameKey m.text := by
  constructor
  · intro x
    refine ⟨?_, ?_, ?_, ?_⟩
    · rw [Header.reusable_eq]
    · rw [Header.reusable_eq]
    · intro a b
      rw [Header.reusable_eq]
      exact merged_iff
    · intro s k isText
      obtain ⟨y, t, frozen, captures⟩ :=
        s.freeze_known (r := ⟨x.header.reusable, .known k, isText⟩) rfl
      have header : y.header = x.header.reusable := captures.header
      refine ⟨y, t, frozen, ?_⟩
      rw [header]
      exact x.header.reusable_reusable
  · intro d l genuine proper s k isText
    obtain ⟨x, t, frozen, captures⟩ :=
      s.freeze_known (r := ⟨(d.run l).header, .known k, isText⟩) rfl
    have header : x.header = (d.run l).header := captures.header
    refine ⟨x, t, frozen, header, ?_⟩
    intro e mem m volatile same
    obtain ⟨there, replayed⟩ := Header.mem_reusable_iff.mp mem
    rw [header] at there
    have handed := (genuine.run proper).names e there
    have mark := handed.replayable volatile same
    rw [replayed, (StandardName.mem_volatile_iff m).mp volatile] at mark
    cases mark

/-- Cookies, a date and an age that are stored by name, by shortcut and under an instance of another
registry, and one value that is no such thing. -/
def spelledOut : List Writing := [
  .named "\tSET-cookie " "a=1", .cookie { name := "b", value := "2" },
  .ask (.override "x-test" false), .named " date" "now", .named "AGE" "7",
  .store (.standard 5 .setCookie) "c=3" true, .named "etag" "v1"]

attribute [local instance] MediaTypes.familiar

/-- Of all this one value is replayed. -/
theorem spelled_out_left_out :
    let start := opened default false (Header.ok 0)
    start.Genuine StandardName.volatile ∧
    (∀ w ∈ spelledOut, w.Genuine StandardName.volatile) ∧
    ∃ x t, start.server.freeze (.fresh ⟨(start.run spelledOut).header, .known (.new []), true⟩) =
      (.ok x, t) ∧
      (∀ e ∈ x.header.reusable.entries, ∀ m ∈ StandardName.volatile,
        nameKey e.1.text ≠ nameKey m.text) ∧
      x.header.reusable.entries = [(.standard 0 .eTag, "v1")] := by
  intro start
  have genuine : start.Genuine StandardName.volatile := by
    refine Genuine.opened default false ?_
    intro e mem
    cases mem
  have names : ∀ w ∈ spelledOut, ∀ n ∈ w.names,
      n ∈ StandardName.all.map (HeaderName.standard 5) := by decide +kernel
  have calls : ∀ w ∈ spelledOut, ∀ c ∈ w.calls, ∀ m ∈ StandardName.volatile,
      c.overrides (nameKey m.text) = false := by decide +kernel
  have proper : ∀ w ∈ spelledOut, w.Genuine StandardName.volatile := by
    intro w mem
    exact Writing.genuine_of_seeded 5 (names w mem) (calls w mem)
  obtain ⟨x, t, frozen, header, left⟩ := replay_leaves_volatile_out.2 start spelledOut genuine
    proper start.server (.new []) true
  refine ⟨genuine, proper, x, t, frozen, left, ?_⟩
  rw [header]
  decide +kernel

end Draft

/-! ## The entry of the status -/

namespace Header

/-- The entries of the status, however its name is spelled. -/
def statusEntries (h : Header) : List (HeaderName × String) :=
  h.own (nameKey StandardName.status.text)

/-- There is one entry of the status at most, and it tells the status line. -/
def TellsStatus (h : Header) : Prop :=
  h.statusEntries.length ≤ 1 ∧ ∀ e ∈ h.statusEntries, e.2 = h.status

/-- The entry of the status, if there is one, was written with the status line. -/
def InStep (h : Header) : Prop :=
  h.statusEntries = [] ∨ h.statusEntries = [(h.standard .status, h.status)]

variable {h h' : Header}

theorem InStep.tells (inStep : h.InStep) : h.TellsStatus := by
  unfold TellsStatus
  rcases inStep with none | one
  · simp [none]
  · simp [one]

/-- The shortcuts write the entry under the seeded instance, which may be replayed. -/
theorem InStep.reusable (inStep : h.InStep) : h.reusable.statusEntries = h.statusEntries := by
  have part : h.reusable.statusEntries = h.statusEntries.filter fun e => e.1.replayable := by
    rw [reusable_eq]
    simp [statusEntries, own, replayable, List.filter_filter, Bool.and_comm]
  rw [part]
  rcases inStep with none | one
  · rw [none]
    rfl
  · rw [one]
    rfl

theorem InStep.of_same (inStep : h.InStep) (entries : h'.statusEntries = h.statusEntries)
    (status : h'.status = h.status) (registry : h'.registry = h.registry) : h'.InStep := by
  have seeded : h'.standard .status = h.standard .status := by
    rw [standard, registry]
    rfl
  unfold InStep
  rw [entries, status, seeded]
  exact inStep

/-- Writing the status line writes the entry. -/
theorem inStep_setStatus (names : h.Genuine []) (text : String) :
    (h.setStatus text).InStep := by
  right
  exact own_set (h := { h with status := text }) names
    (HeaderName.handedOut_standard [] h.registry .status) text

end Header

namespace Writing

/-- Whether the caller himself stores a value of the name with the given key. -/
def assigns (key : String) : Writing → Bool
  | store n _ _ => nameKey n.text = key
  | named name _ => nameKey name = key
  | _ => false

end Writing

namespace Draft

variable {d : Draft} {w : Writing}

section

variable [MediaTypes]

theorem inStep_untouched (genuine : d.Genuine []) (proper : w.Genuine [])
    (inStep : d.header.InStep) (free : w.touches (nameKey StandardName.status.text) = false)
    (status : (d.step w).header.status = d.header.status) : (d.step w).header.InStep :=
  inStep.of_same (own_step genuine proper free) status (d.owner_step w)

theorem inStep_serve (genuine : d.Genuine []) (inStep : d.header.InStep) (p : Nat) :
    (d.step (.serve p)).header.InStep := by
  rcases answer : d.server.respond p d.header with ⟨e | a, s⟩
  · simp only [step, answer]
    exact inStep
  · simp only [step, answer]
    rcases Server.respond_cases answer with ⟨_, rfl⟩ | ⟨_, type, isText, body, rfl⟩
    · exact Header.inStep_setStatus genuine.names _
    · have typed_names := Header.genuine_set genuine.names (Genuine.standard d .contentType) type
      have differ (m : StandardName) (other : m ≠ .status) :
          nameKey (d.header.standard m).text ≠ nameKey StandardName.status.text :=
        mt StandardName.eq_of_key other
      have typed := Header.own_set_other genuine.names (Genuine.standard d .contentType) type
        (differ .contentType (by decide))
      have sized := Header.own_set_other typed_names (Genuine.standard d .contentLength)
        (Decimal.ofNat body.length) (differ .contentLength (by decide))
      exact inStep.of_same (sized.trans typed) rfl rfl

/-- No step parts the entry from the status line, where the caller does not store such an entry
himself. -/
theorem inStep_step (genuine : d.Genuine []) (proper : w.Genuine [])
    (others : w.assigns (nameKey StandardName.status.text) = false) (inStep : d.header.InStep) :
    (d.step w).header.InStep := by
  cases w with
  | ask c => exact inStep
  | status text => exact Header.inStep_setStatus genuine.names text
  | redirect url text =>
    have located := Header.genuine_set genuine.names (Genuine.standard d .location) url
    exact Header.inStep_setStatus located text
  | cookie c =>
    refine inStep_untouched genuine proper inStep ?_ rfl
    simp [Writing.touches, Writing.reach]
  | date text =>
    refine inStep_untouched genuine proper inStep ?_ rfl
    simp [Writing.touches, Writing.reach]
  | serve p => exact inStep_serve genuine inStep p
  | store n value beside =>
    refine inStep_untouched genuine proper inStep others ?_
    cases beside <;> rfl
  | named name value => exact inStep_untouched genuine proper inStep others rfl
  | remove n =>
    by_cases own : nameKey n.text = nameKey StandardName.status.text
    · left
      have handed := proper.names n List.mem_cons_self
      show (d.header.remove n).own (nameKey StandardName.status.text) = []
      rw [← own]
      exact Header.own_remove genuine.names handed
    · refine inStep_untouched genuine proper inStep ?_ rfl
      simp [Writing.touches, own]
  | clear => exact .inl rfl
  | reuse =>
    refine inStep.of_same inStep.reusable ?_ ?_
    · rw [step, Header.reusable_eq]
    · rw [step, Header.reusable_eq]

theorem inStep_run {l : List Writing} (genuine : d.Genuine []) (proper : ∀ w ∈ l, w.Genuine [])
    (others : ∀ w ∈ l, w.assigns (nameKey StandardName.status.text) = false)
    (inStep : d.header.InStep) : (d.run l).header.InStep := by
  induction l generalizing d with
  | nil => exact inStep
  | cons w rest ih =>
    obtain ⟨first, later⟩ := List.forall_mem_cons.mp proper
    obtain ⟨other, others⟩ := List.forall_mem_cons.mp others
    have kept := inStep_step genuine first other inStep
    exact ih (genuine.step first) later others kept

/-- **The status line and the entry of the status never disagree.** A header starts with a status
line and no entries, and is worked on in any way, but the caller stores no value of `Status`
himself, under any spelling. Then it has one entry of the status at most, which tells the status
line, and so have the header of every snapshot of it and what this replays, where the entry is still
there. All this holds also if `Status` was registered anew. -/
theorem status_entry_tells_line (s : Server) (r : Nat) (text : String) (l : List Writing)
    (keeps : s.KeepsMarks [] r) (proper : ∀ w ∈ l, w.Genuine [])
    (others : ∀ w ∈ l, w.assigns (nameKey StandardName.status.text) = false) :
    let h := ((Draft.mk s (.new text r)).run l).header
    h.TellsStatus ∧ ∀ (t : Server) k isText, ∃ x u,
      t.freeze (.fresh ⟨h, .known k, isText⟩) = (.ok x, u) ∧ x.header.TellsStatus ∧
      x.header.reusable.TellsStatus ∧ x.header.status = h.status ∧
      x.header.reusable.status = h.status ∧ x.header.statusEntries = h.statusEntries ∧
      x.header.reusable.statusEntries = h.statusEntries := by
  intro h
  have genuine : (Draft.mk s (.new text r)).Genuine [] := by
    refine ⟨keeps, ?_⟩
    intro e mem
    cases mem
  have inStep : h.InStep := inStep_run genuine proper others (.inl rfl)
  refine ⟨inStep.tells, ?_⟩
  intro t k isText
  obtain ⟨x, u, frozen, captures⟩ := t.freeze_known (r := ⟨h, .known k, isText⟩) rfl
  have header : x.header = h := captures.header
  have replayed : h.reusable.InStep := by
    refine inStep.of_same inStep.reusable ?_ ?_
    · rw [Header.reusable_eq]
    · rw [Header.reusable_eq]
  refine ⟨x, u, frozen, ?_⟩
  rw [header]
  exact ⟨inStep.tells, replayed.tells, rfl, by rw [Header.reusable_eq], rfl, inStep.reusable⟩

end

/-- A redirect after another status, where `Status` is registered as volatile in between and a
removal goes before it. -/
def moved : List Writing := [
  .status "404 Not Found", .ask (.override "STATUS" false), .remove (.standard 7 .status),
  .named "x-status" "200 OK", .redirect "/new" "301 Moved Permanently",
  .cookie { name := "a", value := "1" }]

attribute [local instance] MediaTypes.familiar

/-- What is replayed has the status line of the redirect, and its entry. -/
theorem moved_status_told :
    let s := (Server.addRegistry default false).2
    let h := ((Draft.mk s (.new "200 OK" 0)).run moved).header
    s.KeepsMarks [] 0 ∧ (∀ w ∈ moved, w.Genuine []) ∧
    (∀ w ∈ moved, w.assigns (nameKey StandardName.status.text) = false) ∧ h.TellsStatus ∧
    ∃ x u, s.freeze (.fresh ⟨h, .known (.new []), true⟩) = (.ok x, u) ∧
      x.header.reusable.TellsStatus ∧ x.header.reusable.status = "301 Moved Permanently" ∧
      x.header.reusable.statusEntries = [(.standard 0 .status, "301 Moved Permanently")] := by
  intro s h
  have keeps : s.KeepsMarks [] 0 := keepsMarks_opened [] default false (.ok 0)
  have names : ∀ w ∈ moved, ∀ n ∈ w.names,
      n ∈ StandardName.all.map (HeaderName.standard 7) := by decide +kernel
  have proper : ∀ w ∈ moved, w.Genuine [] := by
    intro w mem
    exact Writing.genuine_of_seeded 7 (names w mem) fun c _ => c.spares_nil
  have others : ∀ w ∈ moved, w.assigns (nameKey StandardName.status.text) = false := by
    decide +kernel
  obtain ⟨tells, frozen⟩ := status_entry_tells_line s 0 "200 OK" moved keeps proper others
  obtain ⟨x, u, froze, _, replayed, _, status, _, entries⟩ := frozen s (.new []) true
  refine ⟨keeps, proper, others, tells, x, u, froze, replayed, ?_, ?_⟩
  · rw [status]
    decide +kernel
  · rw [entries]
    decide +kernel

end Draft

end Docroot
