import Docroot.Proofs.Registry

/-!
Where listings come from.

To say that a listing was kept lawfully is to say what is in it, and not that it is all that a
folder holds. `Scans` says more of the way from one state to another: no listing was kept on it but
those that were made at one go, each by one look at the folder. Every call goes that way, so every
invariant of listings has to be shown for effects that keep none and for `Server.listing`, and
then holds after all calls.
-/

namespace Docroot

namespace Effect

/-- The effects that keep no listing. -/
def Quiet (e : Effect) : Prop := ∀ p l, e ≠ keep p l

theorem Resolves.quiet {e : Effect} (kind : e.Resolves) : e.Quiet := by
  rintro p l rfl
  exact kind

theorem Reads.quiet {e : Effect} (kind : e.Reads) : e.Quiet := by
  rintro p l rfl
  exact kind

end Effect

namespace Server

variable {P : Effect → Prop} {s t u : Server} {c : Call} {a : Answer} {v p : Nat} {l : List Nat}

/-- From `s` to the other state by listings, and by lawful effects of the kind `P` that keep no
listing. -/
inductive Scans (P : Effect → Prop) (s : Server) : Server → Prop
  | stay : Scans P s s
  | step {t : Server} (e : Effect) :
      Scans P s t → P e → e.Quiet → e.Lawful t → Scans P s (e.apply t)
  | list {t : Server} (p : Nat) :
      Scans P s t → (∀ e, Effect.Looks e → P e) → Scans P s (t.listing p).2

namespace Scans

theorem trans (h : Scans P s t) (h' : Scans P t u) : Scans P s u := by
  induction h' with
  | stay => exact h
  | step e _ kind quiet lawful ih => exact .step e ih kind quiet lawful
  | list p _ looks ih => exact .list p ih looks

theorem mono {Q : Effect → Prop} (sub : ∀ e, P e → Q e) (h : Scans P s t) : Scans Q s t := by
  induction h with
  | stay => exact .stay
  | step e _ kind quiet lawful ih => exact .step e ih (sub e kind) quiet lawful
  | list p _ looks ih => exact .list p ih fun e kind => sub e (looks e kind)

theorem goes (h : Scans P s t) : Goes P s t := by
  induction h with
  | stay => exact .stay
  | step e _ kind _ lawful ih => exact .step e ih kind lawful
  | list p _ looks ih => exact ih.trans ((listing_goes _ p).mono looks)

end Scans

theorem Goes.scans {Q : Effect → Prop} (h : Goes Q s t) (sub : ∀ e, Q e → P e)
    (quiet : ∀ e, Q e → e.Quiet) : Scans P s t := by
  induction h with
  | stay => exact .stay
  | step e _ kind lawful ih => exact .step e ih (sub e kind) (quiet e kind) lawful

/-! ## Calls -/

theorem Goes.resolves_scan (h : Goes Effect.Resolves s t) : Scans Effect.Looks s t :=
  h.scans Effect.Resolves.looks fun _ kind => kind.quiet

theorem Goes.reads_scan (h : Goes Effect.Reads s t) : Scans Effect.Looks s t :=
  h.scans Effect.Reads.looks fun _ kind => kind.quiet

theorem listing_scans (s : Server) (p : Nat) : Scans Effect.Looks s (s.listing p).2 :=
  .list p .stay fun _ kind => kind

theorem resolveWith_scans (known : v < s.systems.size) (parent : Nat) (name : String)
    (exts : ExtensionSet) : Scans Effect.Looks s (s.resolveWith v parent name exts).2 := by
  have first : Scans Effect.Looks s (s.children parent true).2 := listing_scans s parent
  have resolved (raw : String) := (resolve_goes
    (Nat.lt_of_lt_of_le known first.goes.size_systems) parent raw).resolves_scan
  simp only [resolveWith]
  split
  · exact first
  · split <;> exact first.trans (resolved _)

theorem matching_scans (s : Server) (p : Nat) (questions : List Question) :
    Scans Effect.Looks s (s.childrenPassing p (questions.map Question.test)).2 :=
  (listing_scans s p).trans (questions_goes questions _ _).reads_scan

theorem collect_scans {bound : Nat} {pending files files' : List Nat}
    (done : collect bound s pending files = some (files', t)) : Scans Effect.Looks s t := by
  fun_induction collect bound s pending files with
  | case1 =>
    cases done
    exact .stay
  | case2 => cases done
  | case3 _ s folder _ _ _ u listed _ _ ih =>
    have first : Scans Effect.Looks s (s.children folder true).2 := listing_scans s folder
    rw [listed] at first
    exact first.trans (ih done)

section

variable [MediaTypes]

theorem warm_scans {bound dir n : Nat} (done : warm bound s dir = some (n, t)) :
    Scans Effect.Looks s t := by
  simp only [warm] at done
  split at done
  · cases done
  · rename_i files u collected
    simp only [Option.some.injEq, Prod.mk.injEq] at done
    obtain ⟨_, rfl⟩ := done
    exact .step (.note _) ((collect_scans collected).trans (load_goes files u).reads_scan) trivial
      (by rintro _ _ ⟨⟩) trivial

/-- Every call keeps no listing but those that it makes at one go. -/
theorem perform_scans (h : s.perform c = some (a, t)) : Scans c.may s t := by
  obtain ⟨known, done⟩ := perform_eq h
  cases c with
  | root v =>
    cases done
    exact (root_goes (by simpa [knows] using known)).resolves_scan
  | get v raw =>
    cases done
    exact (get_goes (by simpa [knows] using known) raw).resolves_scan
  | resolve v parent raw =>
    cases done
    simp only [knows, Bool.and_eq_true, decide_eq_true_eq] at known
    exact (resolve_goes known.1 parent raw).resolves_scan
  | resolveWith v parent name exts =>
    cases done
    simp only [knows, Bool.and_eq_true, decide_eq_true_eq] at known
    exact resolveWith_scans known.1 parent name exts
  | children p folders =>
    cases done
    exact listing_scans s p
  | matching p questions =>
    cases done
    exact matching_scans s p questions
  | warm bound p =>
    obtain ⟨⟨n, u⟩, warmed, same⟩ := Option.map_eq_some_iff.mp done
    cases same
    exact warm_scans warmed
  | length p =>
    cases done
    exact (length_goes s p).reads_scan
  | readBytes p =>
    cases done
    exact (readBytes_goes s p).reads_scan
  | readText p =>
    cases done
    exact (readText_goes s p).reads_scan
  | isCached p =>
    cases done
    exact (isCached_goes s p).reads_scan
  | respond p header =>
    cases done
    exact (respond_goes s p header).reads_scan
  | askText cache key =>
    cases done
    exact .step (.ask cache key) .stay trivial (by rintro _ _ ⟨⟩) trivial
  | newCache | mount | retain | release | invalidate | create | writeText | removeText
  | clearTexts | change =>
    refine (perform_goes h).scans (fun _ kind => kind) ?_
    rintro e kind q l rfl
    simp [Call.may, Effect.Creates] at kind

theorem run_scans {calls : List Call} (ran : s.run calls = some t)
    (kind : ∀ c ∈ calls, ∀ e, c.may e → P e) : Scans P s t := by
  induction calls generalizing s with
  | nil =>
    cases ran
    exact .stay
  | cons c rest ih =>
    obtain ⟨a, u, first, ran⟩ := run_cons ran
    have step := (perform_scans first).mono (kind c List.mem_cons_self)
    exact step.trans (ih ran fun c mem => kind c (List.mem_cons_of_mem _ mem))

theorem run_scans_any {calls : List Call} (ran : s.run calls = some t) :
    Scans (fun _ => True) s t :=
  run_scans ran fun _ _ _ _ => trivial

end

/-! ## The one time that a path is listed -/

/-- Resolving lists nothing. -/
theorem Goes.unlisted (h : Goes Effect.Resolves s t) (new : (s.node p).listing = none) :
    (t.node p).listing = none := by
  refine h.keeps (I := fun t => (t.node p).listing = none) ?_ new
  intro u e kind _ unlisted
  cases listed : ((e.apply u).node p).listing with
  | none => rfl
  | some l =>
    rw [(listed_before kind.quiet listed).2] at unlisted
    cases unlisted

theorem children_all (s : Server) (p : Nat) : s.children p true = s.listing p := by
  have all (l : List Nat) (t : Server) : l.filter (fun q => true || !(t.node q).isFolder) = l :=
    List.filter_eq_self.mpr fun _ _ => rfl
  simp only [children, all]

theorem perform_children_all [MediaTypes] (known : p < s.nodes.size) :
    s.perform (.children p true) = some (.paths (s.listing p).1, (s.listing p).2) := by
  simp [perform, knows, known, carryOut, children_all]

theorem listing_kept (listed : (s.node p).listing = some l) : s.listing p = (l, s) := by
  rw [listing, listed]

/-- A listing is made of no path but the one that is asked for. -/
theorem unlisted_other {q : Nat} (other : q ≠ p) (new : (s.node p).listing = none) :
    ((s.listing q).2.node p).listing = none := by
  simp only [listing]
  split
  · exact new
  · rw [node_setNode, if_neg (fun same => other same.1)]
    exact (makeListing_goes s (s.node q)).1.unlisted new

/-- Nothing is listed that is no path. -/
theorem known_of_listing_made (listed : ((s.listing p).2.node p).listing = some l) :
    p < s.nodes.size := by
  rcases Nat.lt_or_ge p s.nodes.size with known | beyond
  · exact known
  · have unknown := s.node_beyond beyond
    have nothing : s.listing p = ([], s.setNode p { s.node p with listing := some [] }) := by
      simp [listing, makeListing, unknown, show (default : PathNode).isFolder = false from rfl,
        show (default : PathNode).listing = none from rfl]
    have known := (s.listing p).2.known_of_listing listed
    rw [nothing, size_nodes_setNode] at known
    exact known

/-- A path that was not listed before, and is in the end, was listed at one state on the way. -/
theorem Scans.listed (h : Scans P s t) (new : (s.node p).listing = none)
    (listed : (t.node p).listing = some l) :
    ∃ m, Scans P s m ∧ (∀ e, Effect.Looks e → P e) ∧ p < m.nodes.size ∧
      (m.node p).listing = none ∧ (m.listing p).1 = l ∧ Scans P (m.listing p).2 t := by
  induction h with
  | stay =>
    rw [new] at listed
    cases listed
  | step e _ kind quiet lawful ih =>
    obtain ⟨m, before, looks, known, unlisted, made, after⟩ := ih (listed_before quiet listed).2
    exact ⟨m, before, looks, known, unlisted, made, .step e after kind quiet lawful⟩
  | @list u q before looks ih =>
    cases kept : (u.node p).listing with
    | some l' =>
      have still := ((listing_goes u q).became (u.known_of_listing kept)).listing l' kept
      rw [listed] at still
      obtain ⟨m, before, _, known, unlisted, made, after⟩ := ih (kept.trans still.symm)
      exact ⟨m, before, looks, known, unlisted, made, .list q after looks⟩
    | none =>
      by_cases this : q = p
      · subst this
        have known := known_of_listing_made listed
        rw [listing_node known] at listed
        exact ⟨u, before, looks, known, kept, Option.some.inj listed, .stay⟩
      · rw [unlisted_other this kept] at listed
        cases listed

/-- The same for one call, which then does nothing but look. -/
theorem perform_lists [MediaTypes] (h : s.perform c = some (a, t)) (new : (s.node p).listing = none)
    (listed : (t.node p).listing = some l) :
    ∃ m, Scans Effect.Looks s m ∧ p < m.nodes.size ∧ (m.node p).listing = none ∧
      (m.listing p).1 = l ∧ Scans Effect.Looks (m.listing p).2 t := by
  have scans := perform_scans h
  obtain ⟨_, _, looks, _⟩ := scans.listed new listed
  have kind (e : Effect) (may : c.may e) : e.Looks := by
    have keeps : c.may (.keep 0 []) := looks _ trivial
    cases c <;> first | exact may | simp [Call.may, Effect.Creates] at keeps
  obtain ⟨m, before, _, known, unlisted, made, after⟩ := (scans.mono kind).listed new listed
  exact ⟨m, before, known, unlisted, made, after⟩

end Server

end Docroot
