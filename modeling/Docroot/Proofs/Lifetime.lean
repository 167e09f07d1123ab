import Docroot.Proofs.Classification
import Docroot.Proofs.Creation
import Docroot.Proofs.Invalidation
import Docroot.Proofs.Scans

/-!
What becomes of a path in the course of a run.

A path gains, and loses nothing: it keeps its key, its kind and its location; it may turn out to be
there, by the one call that makes it on disk; and it may be listed, once. What the disk, its file
system and other paths do meanwhile makes no difference.
-/

namespace Docroot.Server

variable {P : Effect → Prop} {s t u : Server} {c : Call} {a : Answer} {calls before : List Call}
  {p q : Nat} {l : List Nat}

/-! ## Creation -/

section

variable [MediaTypes]

/-- One of the calls makes the path on disk and says so, after the calls in `before`. -/
def CreatedAfter (s : Server) (calls before : List Call) (p : Nat) : Prop :=
  ∃ after u w, calls = before ++ .create p :: after ∧ s.run before = some u ∧
    u.perform (.create p) = some (.created (.ok true), w)

theorem perform_create (h : s.perform (.create p) = some (a, t)) :
    a = .created (s.create p).1 ∧ t = (s.create p).2 := by
  obtain ⟨_, done⟩ := perform_eq h
  cases done
  exact ⟨rfl, rfl⟩

/-- Only a path that was not there is created. -/
theorem missing_of_created (h : s.perform (.create p) = some (.created (.ok true), t)) :
    (s.node p).present = false := by
  cases present : (s.node p).present with
  | false => rfl
  | true =>
    have answer := (perform_create h).1
    rw [create_present present] at answer
    cases answer

/-- A call makes a path be there exactly if it creates it and says so. -/
theorem perform_present_iff (h : s.perform c = some (a, t)) (known : p < s.nodes.size) :
    (t.node p).present = true ↔
      (s.node p).present = true ∨ c = .create p ∧ a = .created (.ok true) := by
  by_cases this : c = .create p
  · subst this
    obtain ⟨rfl, rfl⟩ := perform_create h
    cases present : (s.node p).present with
    | true => simp [create_present present, present]
    | false =>
      by_cases made : (s.makeOnDisk p).1 = .ok ()
      · obtain ⟨answer, _, nodes⟩ := create_made present made
        have there : ((s.create p).2.node p).present = true := by
          rw [node, nodes, getD_setIfInBounds, if_pos ⟨rfl, known⟩]
        simp [answer, there]
      · obtain ⟨answer, _, nodes⟩ := create_unmade present made
        have missing : ((s.create p).2.node p).present = false := by
          rw [node, nodes, ← node, present]
        simp [answer, missing]
  · have other : ¬ c.may (.confirm p) := fun kind => this (may_confirm kind)
    have kept := (perform_goes h).present_kept known other
    simp [kept, this]

theorem createdAfter_cons (first : s.perform c = some (a, u)) {rest : List Call} :
    (∃ before, s.CreatedAfter (c :: rest) before p) ↔
      (c = .create p ∧ a = .created (.ok true)) ∨ ∃ before, u.CreatedAfter rest before p := by
  constructor
  · rintro ⟨before, after, v, w, split, led, made⟩
    cases before with
    | nil =>
      cases split
      cases led
      rw [first] at made
      cases made
      exact .inl ⟨rfl, rfl⟩
    | cons c' before =>
      cases split
      obtain ⟨_, _, first', led⟩ := run_cons led
      rw [first] at first'
      cases first'
      exact .inr ⟨before, after, v, w, rfl, led, made⟩
  · rintro (⟨rfl, rfl⟩ | ⟨before, after, v, w, rfl, led, made⟩)
    · exact ⟨[], rest, s, u, rfl, rfl, first⟩
    · exact ⟨c :: before, after, v, w, rfl, (run_cons_of first).trans led, made⟩

/-- A path is there after a run exactly if it was before, or was created on the way. -/
theorem run_present_iff (ran : s.run calls = some t) (known : p < s.nodes.size) :
    (t.node p).present = true ↔
      (s.node p).present = true ∨ ∃ before, s.CreatedAfter calls before p := by
  induction calls generalizing s with
  | nil =>
    cases ran
    have none : ¬ ∃ before, t.CreatedAfter [] before p := by
      rintro ⟨before, _, _, _, split, _⟩
      cases before <;> cases split
    simp [none]
  | cons c rest ih =>
    obtain ⟨a, u, first, ran⟩ := run_cons ran
    have knownThen := Nat.lt_of_lt_of_le known (perform_goes first).size_nodes
    rw [ih ran knownThen, perform_present_iff first known, createdAfter_cons first, or_assoc]

/-- Before a path is created it is missing, so it was not created any earlier. -/
theorem CreatedAfter.missing_before (created : s.CreatedAfter calls before p)
    (known : p < s.nodes.size) :
    (s.node p).present = false ∧ ¬ ∃ earlier, s.CreatedAfter before earlier p := by
  obtain ⟨_, u, _, _, led, made⟩ := created
  have missing := missing_of_created made
  have iff := run_present_iff led known
  rw [missing] at iff
  simpa [not_or] using iff

/-- Of two creations, the later one would find the path there. -/
theorem CreatedAfter.not_earlier {before' more : List Call}
    (created : s.CreatedAfter calls before p)
    (created' : s.CreatedAfter calls before' p) (known : p < s.nodes.size) :
    before' ≠ before ++ .create p :: more := by
  rintro rfl
  obtain ⟨_, u, w, _, led, made⟩ := created
  exact (created'.missing_before known).2 ⟨before, more, u, w, rfl, led, made⟩

/-- A path is created once. -/
theorem CreatedAfter.once {before' : List Call} (created : s.CreatedAfter calls before p)
    (created' : s.CreatedAfter calls before' p) (known : p < s.nodes.size) : before = before' := by
  obtain ⟨after, _, _, split, _⟩ := id created
  obtain ⟨after', _, _, split', _⟩ := id created'
  rw [split] at split'
  rcases List.append_eq_append_iff.mp split' with ⟨more, longer, rest⟩ | ⟨more, longer, rest⟩
  · cases more with
    | nil => rw [longer, List.append_nil]
    | cons c more =>
      obtain ⟨rfl, _⟩ := List.cons.inj rest
      exact absurd longer (created.not_earlier created' known)
  · cases more with
    | nil => rw [longer, List.append_nil]
    | cons c more =>
      obtain ⟨rfl, _⟩ := List.cons.inj rest
      exact absurd longer (created'.not_earlier created known)

end

/-! ## The listing -/

/-- There is nothing to list: the path is no folder or was missing, its file system has no handle
any more, or the disk does not tell what is in the folder. -/
def Unlistable (s : Server) (p : Nat) : Prop :=
  (s.node p).isFolder = false ∨ (s.node p).present = false ∨
  (s.system (s.node p).system).owners = 0 ∨
  ∃ e, s.disk.list (Utf8.ofText (s.node p).diskPath) = .error e

theorem listing_unlistable (new : (s.node p).listing = none) (unlistable : s.Unlistable p) :
    (s.listing p).1 = [] := by
  simp only [listing, new]
  rcases makeListing_cases s (s.node p) with
    none | ⟨e, failed⟩ | ⟨names, folder, present, alive, _, listed⟩
  · rw [none]
  · rw [failed]
  · rcases unlistable with file | missing | orphaned | ⟨e, failed⟩
    · rw [folder] at file
      cases file
    · rw [present] at missing
      cases missing
    · exact absurd orphaned alive
    · rw [listed] at failed
      cases failed

theorem Unlistable.looks (unlistable : s.Unlistable p) (known : p < s.nodes.size)
    (h : Goes Effect.Looks s t) : t.Unlistable p := by
  have became := h.became known
  rw [Unlistable, became.isFolder, became.system, became.diskPath, h.owners_kept, h.disk_kept,
    h.present_kept known id]
  exact unlistable

/-- A call that lists a path for the first time finds nothing in it if there is nothing to list. -/
theorem listed_unlistable [MediaTypes] (h : s.perform c = some (a, t)) (known : p < s.nodes.size)
    (new : (s.node p).listing = none) (listed : (t.node p).listing = some l)
    (unlistable : s.Unlistable p) : l = [] := by
  obtain ⟨m, scans, _, unlisted, made, _⟩ := perform_lists h new listed
  rw [← made]
  exact listing_unlistable unlisted (unlistable.looks known scans.goes)

/-! ## Questions about what is listed -/

/-- Tests none of which changes the answer of another, or its own. -/
def Steady (s : Server) (tests : List Test) : Prop :=
  ∃ I : Server → Prop, I s ∧
    ∀ test ∈ tests, ∀ u, I u → ∀ q, I (test q u).2 ∧ (test q u).1 = (test q s).1

theorem passes_steady {I : Server → Prop} {tests : List Test}
    (steady : ∀ test ∈ tests, ∀ u, I u → ∀ q, I (test q u).2 ∧ (test q u).1 = (test q s).1)
    (now : I u) (q : Nat) :
    (passes tests q u).1 = tests.all (fun test => (test q s).1) ∧ I (passes tests q u).2 := by
  induction tests generalizing u with
  | nil => exact ⟨rfl, now⟩
  | cons test rest ih =>
    obtain ⟨next, answer⟩ := steady test List.mem_cons_self u now q
    have rest' := ih (fun test mem => steady test (List.mem_cons_of_mem _ mem)) next
    simp only [passes, List.all_cons, ← answer]
    split <;> rename_i asked <;> rw [asked] at rest' next ⊢
    · rw [Bool.true_and]
      exact rest'
    · exact ⟨rfl, next⟩

/-- What steady tests leave of a list is those that pass all of them, in the same order. -/
theorem sift_steady {I : Server → Prop} {tests : List Test}
    (steady : ∀ test ∈ tests, ∀ u, I u → ∀ q, I (test q u).2 ∧ (test q u).1 = (test q s).1)
    (now : I u) (l : List Nat) :
    (sift tests l u).1 = l.filter (fun q => tests.all fun test => (test q s).1) := by
  induction l generalizing u with
  | nil => rfl
  | cons q rest ih =>
    obtain ⟨passed, next⟩ := passes_steady steady now q
    simp only [sift, ih next, passed, List.filter_cons]

theorem cached_answer (q : Nat) (s : Server) : (Question.cached.test q s).1 =
    ((s.cache (s.system (s.node q).system).cache).peek (s.node q).key).isSome := rfl

/-- Questions that can be asked of paths are steady. -/
theorem questions_steady (s : Server) (questions : List Question) :
    s.Steady (questions.map Question.test) := by
  refine ⟨fun u => u.nodes = s.nodes ∧ u.systems = s.systems ∧
    ∀ c key, (u.cache c).peek key = (s.cache c).peek key, ⟨rfl, rfl, fun _ _ => rfl⟩, ?_⟩
  rintro _ mem u ⟨nodes, systems, peeks⟩ q
  obtain ⟨question, _, rfl⟩ := List.mem_map.mp mem
  have same : u.node q = s.node q := by
    rw [node, nodes, node]
  cases question with
  | of test => exact ⟨⟨nodes, systems, peeks⟩, congrArg test same⟩
  | cached =>
    have places : u.system (s.node q).system = s.system (s.node q).system := by
      rw [system, systems, system]
    refine ⟨⟨nodes, systems, fun c key => ?_⟩, ?_⟩
    · exact (peek_askCache u (u.node q) c key).trans (peeks c key)
    · rw [cached_answer, cached_answer, same, places, peeks]

/-! ## What is answered from then on -/

/-- The path was listed, and all that is asked of its listing is answered from `l`. -/
def Answers [MediaTypes] (s : Server) (p : Nat) (l : List Nat) : Prop :=
  (s.node p).listing = some l ∧
  (∀ folders, s.perform (.children p folders) =
    some (.paths (l.filter fun q => folders || !(s.node q).isFolder), s)) ∧
  ∀ questions, ∃ t, t.nodes = s.nodes ∧ s.perform (.matching p questions) =
    some (.paths (l.filter fun q => questions.all fun x => (x.test q s).1), t)

/-- What a call answers that asks for the paths in a folder. -/
theorem children_answer [MediaTypes] (known : p < s.nodes.size) (folders : Bool) :
    s.perform (.children p folders) =
      some (.paths ((s.listing p).1.filter fun q =>
        folders || !((s.listing p).2.node q).isFolder), (s.listing p).2) := by
  simp [perform, knows, known, carryOut, children]

theorem sift_questions (questions : List Question) (l : List Nat) (s : Server) :
    (sift (questions.map Question.test) l s).1 =
      l.filter (fun q => questions.all fun x => (x.test q s).1) := by
  obtain ⟨I, now, steady⟩ := questions_steady s questions
  rw [sift_steady steady now]
  simp only [List.all_map, Function.comp_def]

section

variable [MediaTypes]

theorem matching_answer (known : p < s.nodes.size) (questions : List Question) :
    s.perform (.matching p questions) =
      some (.paths ((s.listing p).1.filter fun q =>
          questions.all fun x => (x.test q (s.listing p).2).1),
        (sift (questions.map Question.test) (s.listing p).1 (s.listing p).2).2) := by
  simp [perform, knows, known, carryOut, childrenPassing, sift_questions]

theorem answers_of_listed (listed : (s.node p).listing = some l) : s.Answers p l := by
  have known := s.known_of_listing listed
  refine ⟨listed, fun folders => ?_, fun questions => ?_⟩
  · rw [children_answer known, listing_kept listed]
  · have answer := matching_answer known questions
    rw [listing_kept listed] at answer
    exact ⟨_, (questions_goes questions l s).reads_kept.1, answer⟩

/-- Whatever is asked first of a folder, it is listed then, and the answers are from this listing
from then on. -/
theorem listed_by_asking (known : p < s.nodes.size) :
    (∀ folders, ∃ t, s.perform (.children p folders) = some (.paths ((s.listing p).1.filter fun q =>
      folders || !(t.node q).isFolder), t) ∧ t.Answers p (s.listing p).1) ∧
    ∀ questions, ∃ t kept, kept.Sublist (s.listing p).1 ∧
      s.perform (.matching p questions) = some (.paths kept, t) ∧
      t.Answers p (s.listing p).1 := by
  have listed := listing_node known
  refine ⟨fun folders => ⟨_, children_answer known folders, answers_of_listed listed⟩,
    fun questions => ⟨_, _, List.filter_sublist, matching_answer known questions, ?_⟩⟩
  refine answers_of_listed ?_
  rw [node, (questions_goes questions _ _).reads_kept.1, ← node]
  exact listed

/-! ## Every path, in every run -/

/-- **Paths only ever gain.** Whatever is called between two states and whatever becomes of the disk
and of the handles of file systems meanwhile, a path keeps its file system, its key, its kind and
its location. Whether it is there changes once at most, from no to yes, and in no call but the one
that creates it and says so. It is listed once at most: from then on the answers to all that is
asked of what is in it are drawn from one list of paths, in one order. That list is empty if there
was nothing to list when a call did it. -/
theorem paths_only_gain (known : p < s.nodes.size) (ran : s.run calls = some t) :
    ((t.node p).system = (s.node p).system ∧ (t.node p).key = (s.node p).key ∧
      (t.node p).isFolder = (s.node p).isFolder ∧ (t.node p).diskPath = (s.node p).diskPath) ∧
    ((t.node p).present = true ↔
      (s.node p).present = true ∨ ∃ before, s.CreatedAfter calls before p) ∧
    (∀ before, s.CreatedAfter calls before p → (s.node p).present = false ∧
      ∀ before', s.CreatedAfter calls before' p → before = before') ∧
    (∀ l, (s.node p).listing = some l → s.Answers p l ∧ t.Answers p l) ∧
    (∀ c a u l, s.perform c = some (a, u) → (s.node p).listing = none →
      (u.node p).listing = some l → s.Unlistable p → l = []) ∧
    ∃ l, (∀ folders, ∃ u, s.perform (.children p folders) =
        some (.paths (l.filter fun q => folders || !(u.node q).isFolder), u) ∧ u.Answers p l) ∧
      ∀ questions, ∃ u kept, kept.Sublist l ∧
        s.perform (.matching p questions) = some (.paths kept, u) ∧ u.Answers p l := by
  have became := (run_goes_any ran).became known
  refine ⟨⟨became.system, became.key, became.isFolder, became.diskPath⟩,
    run_present_iff ran known, ?_, ?_, ?_, (s.listing p).1, listed_by_asking known⟩
  · intro before created
    exact ⟨(created.missing_before known).1, fun before' created' => created.once created' known⟩
  · intro l listed
    exact ⟨answers_of_listed listed, answers_of_listed (became.listing l listed)⟩
  · intro c a u l done new listed
    exact listed_unlistable done known new listed

end

attribute [local instance] MediaTypes.familiar

/-- What was listed outlives the disk and the last handle of the file system. -/
theorem listing_outlives_disk : ∃ s t,
    (start textDisk).run [.mount "/" none {}, .root 0, .children 0 true] = some s ∧
    s.run [.release 0, .change .bare] = some t ∧
    t.perform (.children 0 true) = some (.paths [1], t) := by
  obtain ⟨s, ran, systems, nodes, _, listed, _⟩ := listed_textDisk
  have known : 0 < s.nodes.size := by omega
  have led : s.run [.release 0, .change .bare] =
      some { s.release 0 with disk := Tree.bare.1 } := by
    simp [run, perform, knows, carryOut, systems]
  obtain ⟨_, _, _, kept, _⟩ := paths_only_gain known led
  obtain ⟨_, answers, _⟩ := (kept [1] listed).2
  have answer := answers true
  simp only [Bool.true_or, List.filter_true] at answer
  exact ⟨s, _, ran, led, answer⟩

end Docroot.Server
