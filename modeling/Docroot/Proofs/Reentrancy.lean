import Docroot.Proofs.Occupancy

/-!
Which calls a build may make of the cache that it builds for.

A build holds the slot of its key until it is over, and its closure may call the cache. A call that
needs a slot which a build around it holds waits for a build that waits for the call. `Routine` is a
program that makes any calls. `Routine.locks` follows it and notes every slot that it asks for, with
the keys of the builds around the call that began since the cache was last cleared. A build that
began before holds a slot that is no longer that of its key. A call is stuck exactly if its key is
among those that are noted with it.
-/

namespace Docroot

namespace ResponseCache

/-- A call of a response cache that builds nothing. -/
inductive Request where
  | get (key : String)
  | insert (key : String) (x : Snapshot)
  | remove (key : String)
  | clear
  | size
  | isEmpty

/-- What such a call gives. -/
inductive Given where
  | snapshot (x : Option Snapshot)
  | nothing
  | size (n : Nat)
  | isEmpty (b : Bool)

/-- The key whose slot the call asks for, if it asks for one. -/
def Request.key? : Request → Option String
  | get key | insert key _ | remove key => some key
  | clear | size | isEmpty => none

end ResponseCache

open ResponseCache (Request Given Alike)

variable {τ : Type}

/-- A program that calls a response cache in any way, and acts on a state `τ` besides. -/
inductive Routine (τ : Type) where
  /-- The end. In a build this is what is to be frozen. -/
  | yield (r : Except ServeError Body)
  | aside (act : τ → τ) (next : τ → Routine τ)
  | call (r : Request) (next : Given → Routine τ)
  | build (key : String) (closure : Routine τ) (next : Except ServeError Snapshot → Routine τ)

/-- A cache, what there is besides it, and how often the cache was cleared. -/
structure Stage (τ : Type) where
  cache : ResponseCache
  outside : τ
  clears : Nat

def Stage.opened (t : τ) : Stage τ := ⟨.empty, t, 0⟩

/-- Calls the cache. -/
def Stage.ask (s : Stage τ) : Request → Except Blocked (Given × Stage τ)
  | .get key =>
    match s.cache.get key with
    | .error b => .error b
    | .ok x => .ok (.snapshot x, s)
  | .insert key x =>
    match s.cache.insert key x with
    | .error b => .error b
    | .ok (old, c) => .ok (.snapshot old, { s with cache := c })
  | .remove key =>
    match s.cache.remove key with
    | .error b => .error b
    | .ok (old, c) => .ok (.snapshot old, { s with cache := c })
  | .clear => .ok (.nothing, { s with cache := s.cache.clear, clears := s.clears + 1 })
  | .size => .ok (.size s.cache.size, s)
  | .isEmpty => .ok (.isEmpty s.cache.isEmpty, s)

def Outside.stage (o : Outside τ) : ResponseCache.Host (Stage τ) where
  cache s := s.cache
  put c s := { s with cache := c }
  report e s := { s with outside := o.report e s.outside }
  freeze body s :=
    let answer := o.freeze body s.outside
    (answer.1, { s with outside := answer.2 })

/-- Runs a routine. There is no answer if it needs a slot that is held. -/
def Routine.run (o : Outside τ) : Routine τ → Stage τ →
    Except Blocked (Except ServeError Body × Stage τ)
  | yield r, s => .ok (r, s)
  | aside act next, s =>
    let t := act s.outside
    (next t).run o { s with outside := t }
  | call r next, s =>
    match s.ask r with
    | .error b => .error b
    | .ok (x, s) => (next x).run o s
  | build key closure next, s =>
    match ResponseCache.getOrBuild o.stage key (closure.run o) s with
    | .error b => .error b
    | .ok (r, s) => (next r).run o s

/-! ## Slots that are asked for -/

/-- A call that asks for a slot. -/
structure Lock where
  key : String
  /-- The keys of the builds around the call that began since the cache was last cleared. -/
  holders : List String

/-- The builds around a call, the innermost first. Each has its key, and how often the cache had
been cleared when it began. -/
abbrev Around := List (String × Nat)

namespace Stage

variable (s : Stage τ) (around : Around)

/-- The keys of the builds that began since the cache was last cleared. -/
def holders : List String := (around.filter fun b => b.2 = s.clears).map Prod.fst

/-- The slots that a call asks for, which is one or none. -/
def locks (r : Request) : List Lock :=
  match r.key? with
  | none => []
  | some key => [⟨key, s.holders around⟩]

/-- The slots that are asked for when a snapshot is to be built: that of its key, and during the
build, if there is one, those that the closure asks for. -/
def buildLocks (key : String) (closure : Around → Stage τ → List Lock) : List Lock :=
  ⟨key, s.holders around⟩ ::
    match s.cache.start key with
    | .ok (.build _, c) => closure ((key, s.clears) :: around) { s with cache := c }
    | _ => []

end Stage

/-- The slots that a routine asks for, up to its end or to the call at which it is stuck. -/
def Routine.locks (o : Outside τ) : Routine τ → Around → Stage τ → List Lock
  | yield _, _, _ => []
  | aside act next, around, s =>
    let t := act s.outside
    (next t).locks o around { s with outside := t }
  | call r next, around, s =>
    s.locks around r ++
      match s.ask r with
      | .error _ => []
      | .ok (x, s) => (next x).locks o around s
  | build key closure next, around, s =>
    s.buildLocks around key (closure.locks o) ++
      match ResponseCache.getOrBuild o.stage key (closure.run o) s with
      | .error _ => []
      | .ok (r, s) => (next r).locks o around s

/-- How a cache comes to be used, with the builds that are in progress there: it starts empty,
routines run to their end, and builds begin. -/
inductive Reached (o : Outside τ) : Around → Stage τ → Prop
  | opened (t : τ) : Reached o [] (.opened t)
  | ran {around : Around} {s s' : Stage τ} {r : Except ServeError Body} (routine : Routine τ)
      (before : Reached o around s) (run : routine.run o s = .ok (r, s')) : Reached o around s'
  | begun {around : Around} {s : Stage τ} {i : Nat} {c : ResponseCache} (key : String)
      (before : Reached o around s) (start : s.cache.start key = .ok (.build i, c)) :
      Reached o ((key, s.clears) :: around) { s with cache := c }

/-! ## Builds in progress -/

/-- The builds around as the cache knows them. One that began before the cache was last cleared is
evicted. -/
def Stage.builds (s : Stage τ) (around : Around) : List Pending :=
  around.map fun b => ⟨b.1, b.2 ≠ s.clears⟩

variable {s s' : Stage τ} {around : Around} {held : List (String × Nat)} {key : String}

theorem Stage.busy_iff (map : Table String Snapshot) :
    Plain.busy ⟨map, s.builds around⟩ key = true ↔ key ∈ s.holders around := by
  simp only [Plain.busy, builds, holders, List.any_map, List.any_eq_true, List.mem_map,
    List.mem_filter, Function.comp_apply, Bool.and_eq_true, beq_iff_eq, Bool.not_eq_true',
    decide_eq_false_iff_not, not_not, decide_eq_true_eq]
  constructor
  · rintro ⟨b, mem, ofKey, recent⟩
    exact ⟨b, ⟨mem, recent⟩, ofKey⟩
  · rintro ⟨b, ⟨mem, recent⟩, ofKey⟩
    exact ⟨b, mem, ofKey, recent⟩

/-- The cache stands for a map while the builds around are in progress, which hold the given
slots. -/
structure Stage.Within (around : Around) (held : List (String × Nat)) (s : Stage τ) : Prop where
  order : ∀ b ∈ around, b.2 ≤ s.clears
  shows : ∃ map, s.cache.Shows ⟨map, s.builds around⟩ held

/-- How something ends that asks for the given slots: it is stuck at one of them, or it may have all
of them and leaves the builds around as they are. -/
inductive Ends {α : Type} (around : Around) (held : List (String × Nat)) (locks : List Lock) :
    Except Blocked (α × Stage τ) → Prop
  | stuck {l : Lock} (mem : l ∈ locks) (taken : l.key ∈ l.holders) :
      Ends around held locks (.error .blocked)
  | done (a : α) {s : Stage τ} (free : ∀ l ∈ locks, l.key ∉ l.holders)
      (within : s.Within around held) : Ends around held locks (.ok (a, s))

section
variable {α : Type} {locks : List Lock} {x : Except Blocked (α × Stage τ)}

theorem Ends.after {before : List Lock} (free : ∀ l ∈ before, l.key ∉ l.holders)
    (ends : Ends around held locks x) : Ends around held (before ++ locks) x := by
  cases ends with
  | stuck mem taken => exact .stuck (List.mem_append_right _ mem) taken
  | done a free' within => exact .done a (List.forall_mem_append.mpr ⟨free, free'⟩) within

theorem Ends.completes_iff (ends : Ends around held locks x) :
    (∃ a s, x = .ok (a, s)) ↔ ∀ l ∈ locks, l.key ∉ l.holders := by
  cases ends with
  | stuck mem taken =>
    constructor
    · rintro ⟨_, _, done⟩
      cases done
    · intro free
      exact absurd taken (free _ mem)
  | done a free within => exact ⟨fun _ => free, fun _ => ⟨a, _, rfl⟩⟩

end

/-- What changes the cache alone leaves the builds around as they are. -/
theorem Stage.Within.put (h : s.Within around held) {c : ResponseCache}
    {map : Table String Snapshot} (shows : c.Shows ⟨map, s.builds around⟩ held) (t : τ) :
    Stage.Within around held { s with cache := c, outside := t } :=
  ⟨h.order, map, shows⟩

/-- To clear the cache evicts all builds around. -/
theorem Stage.Within.clear (h : s.Within around held) :
    Stage.Within around held { s with cache := s.cache.clear, clears := s.clears + 1 } := by
  obtain ⟨map, shows⟩ := h.shows
  refine ⟨fun b mem => Nat.le_succ_of_le (h.order b mem), .empty, ?_⟩
  have evicted : (s.builds around).map (fun b => { b with evicted := true }) =
      around.map fun b => ⟨b.1, b.2 ≠ s.clears + 1⟩ := by
    rw [Stage.builds, List.map_map]
    refine List.map_congr_left ?_
    intro b mem
    have before : b.2 ≠ s.clears + 1 := Nat.ne_of_lt (Nat.lt_succ_of_le (h.order b mem))
    simp [before]
  have cleared := shows.clear
  rw [Plain.clear, evicted] at cleared
  exact cleared

section
variable {map : Table String Snapshot}

/-- A call is stuck at a slot that a build around it holds. -/
theorem Stage.ends_stuck {α : Type} (busy : Plain.busy ⟨map, s.builds around⟩ key = true) :
    Ends (α := α) (τ := τ) around held [⟨key, s.holders around⟩] (.error .blocked) :=
  .stuck List.mem_cons_self ((Stage.busy_iff map).mp busy)

/-- No build around holds the slot of a key that is not being built. -/
theorem Stage.free_of_idle (idle : Plain.busy ⟨map, s.builds around⟩ key = false) :
    ∀ l ∈ [(⟨key, s.holders around⟩ : Lock)], l.key ∉ l.holders := by
  intro l mem taken
  obtain rfl := List.mem_singleton.mp mem
  rw [(Stage.busy_iff map).mpr taken] at idle
  cases idle

/-- A call that changes what is under one key. -/
theorem Stage.Within.change (h : s.Within around held) (key : String)
    {answer : Except Blocked (Option Snapshot × ResponseCache)} {old : Option Snapshot}
    {map' : Table String Snapshot}
    (alike : Alike (ResponseCache.Shows · · held) answer
      (if Plain.busy ⟨map, s.builds around⟩ key then .error .blocked
        else .ok (old, ⟨map', s.builds around⟩))) :
    Ends around held [⟨key, s.holders around⟩] (match answer with
      | .error b => .error b
      | .ok (old, c) => .ok (Given.snapshot old, { s with cache := c })) := by
  cases idle : Plain.busy ⟨map, s.builds around⟩ key with
  | true =>
    rw [idle, if_pos rfl] at alike
    cases alike
    exact Stage.ends_stuck idle
  | false =>
    rw [idle, if_neg Bool.false_ne_true] at alike
    cases alike with
    | done old shows => exact .done _ (Stage.free_of_idle idle) (h.put shows _)

end

/-- A call is stuck exactly if a build around it holds its slot. -/
theorem Stage.Within.ask (h : s.Within around held) (r : Request) :
    Ends around held (s.locks around r) (s.ask r) := by
  obtain ⟨map, shows⟩ := h.shows
  have none : ∀ l ∈ ([] : List Lock), l.key ∉ l.holders := nofun
  cases r with
  | get key =>
    simp only [Stage.ask, shows.get key, Plain.get]
    cases idle : Plain.busy ⟨map, s.builds around⟩ key with
    | true => exact Stage.ends_stuck idle
    | false => exact .done _ (Stage.free_of_idle idle) h
  | insert key x => exact h.change key (shows.insert key x)
  | remove key => exact h.change key (shows.remove key)
  | clear => exact .done _ none h.clear
  | size | isEmpty => exact .done _ none h

/-! ## Runs -/

/-- A build begins inside of those around it. -/
theorem Stage.Within.begin (h : s.Within around held) {map : Table String Snapshot}
    {c : ResponseCache} {i : Nat}
    (shows : c.Shows (Plain.begin ⟨map, s.builds around⟩ key) ((key, i) :: held)) :
    Stage.Within ((key, s.clears) :: around) ((key, i) :: held) { s with cache := c } := by
  refine ⟨?_, map, ?_⟩
  · intro b mem
    rcases List.mem_cons.mp mem with rfl | outer
    · exact Nat.le_refl _
    · exact h.order b outer
  · simpa [Stage.builds, Plain.begin] using shows

/-- How a build starts among those around it. -/
theorem Stage.Within.start (h : s.Within around held) (key : String) :
    (s.cache.start key = .error .blocked ∧ key ∈ s.holders around) ∨
    key ∉ s.holders around ∧
      ((∃ x c, s.cache.start key = .ok (.hit x, c) ∧
          ∀ t : τ, Stage.Within around held { s with cache := c, outside := t }) ∨
        ∃ i c, s.cache.start key = .ok (.build i, c) ∧
          Stage.Within ((key, s.clears) :: around) ((key, i) :: held) { s with cache := c }) := by
  obtain ⟨map, shows⟩ := h.shows
  have start := shows.start key
  rw [← Stage.busy_iff map]
  cases idle : Plain.busy ⟨map, s.builds around⟩ key with
  | true =>
    rw [idle, if_pos rfl] at start
    exact .inl ⟨start, rfl⟩
  | false =>
    rw [idle, if_neg Bool.false_ne_true] at start
    refine .inr ⟨Bool.false_ne_true, ?_⟩
    cases built : map.find? key with
    | some x =>
      simp only [built] at start
      obtain ⟨c, started, shows⟩ := start
      exact .inl ⟨x, c, started, h.put shows⟩
    | none =>
      simp only [built] at start
      obtain ⟨i, c, started, shows⟩ := start
      exact .inr ⟨i, c, started, h.begin shows⟩

theorem Plain.builds_finish (p : Plain) (key : String) (x : Snapshot) :
    (p.finish key x).builds = p.builds.tail := by
  unfold finish
  split <;> rfl

/-- The innermost build ends, and those around it go on. -/
theorem Stage.Within.finish {n i : Nat} (h : s.Within ((key, n) :: around) ((key, i) :: held))
    {c : ResponseCache} (t : τ)
    (shows : ∀ p, s.cache.Shows p ((key, i) :: held) →
      ∃ q, q.builds = p.builds.tail ∧ c.Shows q held) :
    Stage.Within around held { s with cache := c, outside := t } := by
  obtain ⟨map, before⟩ := h.shows
  obtain ⟨⟨map', builds⟩, ended, after⟩ := shows _ before
  have ended : builds = s.builds around := ended
  exact ⟨fun b mem => h.order b (List.mem_cons_of_mem _ mem), map', ended ▸ after⟩

variable (o : Outside τ)

/-- A build is stuck at the slot of its key, or where its closure is. -/
theorem Stage.Within.getOrBuild (h : s.Within around held) (key : String)
    (closure : Stage τ → Except Blocked (Except ServeError Body × Stage τ))
    (locks : Around → Stage τ → List Lock)
    (inner : ∀ around held (s : Stage τ), s.Within around held →
      Ends around held (locks around s) (closure s)) :
    Ends around held (s.buildLocks around key locks)
      (ResponseCache.getOrBuild o.stage key closure s) := by
  simp only [Stage.buildLocks, ResponseCache.getOrBuild, Outside.stage]
  rcases h.start key with
    ⟨started, taken⟩ | ⟨own, ⟨x, c, started, within⟩ | ⟨i, c, started, within⟩⟩
  · simp only [started]
    exact .stuck List.mem_cons_self taken
  · simp only [started]
    exact .done _ (List.forall_mem_singleton.mpr own) (within _)
  · simp only [started]
    have ran := inner _ _ _ within
    generalize locks ((key, s.clears) :: around) { s with cache := c } = asked at ran ⊢
    generalize closure { s with cache := c } = answer at ran ⊢
    refine Ends.after (List.forall_mem_singleton.mpr own) ?_
    cases ran with
    | stuck mem taken => exact .stuck mem taken
    | @done a u free within =>
      have abandoned (t : τ) : Stage.Within around held
          { u with cache := u.cache.abandon i, outside := t } :=
        within.finish t fun p shows => ⟨_, rfl, shows.abandon⟩
      cases a with
      | error e => exact .done _ free (abandoned _)
      | ok body =>
        cases frozen : (o.freeze body u.outside).1 with
        | error e =>
          simp only [frozen]
          exact .done _ free (abandoned _)
        | ok x =>
          simp only [frozen]
          refine .done _ free (within.finish _ ?_)
          intro p shows
          exact ⟨_, p.builds_finish key x, (shows.finish x).2⟩

/-- A run is stuck exactly if it asks for a slot that a build around the call holds, and leaves the
builds around the run as they are. The induction follows the routine; the closure of a build is run
with one more build around it. -/
theorem Routine.run_ends (routine : Routine τ) (h : s.Within around held) :
    Ends around held (routine.locks o around s) (routine.run o s) := by
  induction routine generalizing around held s with
  | yield r => exact .done r nofun h
  | aside act next ih =>
    obtain ⟨map, shows⟩ := h.shows
    exact ih _ (h.put shows _)
  | call r next ih =>
    have called := h.ask r
    simp only [Routine.locks, Routine.run]
    generalize s.locks around r = asked at called ⊢
    generalize s.ask r = answer at called ⊢
    cases called with
    | stuck mem taken => exact .stuck (List.mem_append_left _ mem) taken
    | done x free within => exact (ih x within).after free
  | build key closure next ihClosure ih =>
    have called := h.getOrBuild o key (closure.run o) (closure.locks o)
      fun _ _ _ within => ihClosure within
    simp only [Routine.locks, Routine.run]
    generalize s.buildLocks around key (closure.locks o) = asked at called ⊢
    generalize ResponseCache.getOrBuild o.stage key (closure.run o) s = answer at called ⊢
    cases called with
    | stuck mem taken => exact .stuck (List.mem_append_left _ mem) taken
    | done built free within => exact (ih built within).after free

theorem Reached.within {o : Outside τ} (reached : Reached o around s) :
    ∃ held, s.Within around held := by
  induction reached with
  | opened t => exact ⟨[], nofun, .empty, ResponseCache.shows_empty⟩
  | ran routine _ run ih =>
    obtain ⟨held, within⟩ := ih
    have ends := routine.run_ends o within
    rw [run] at ends
    cases ends with
    | done _ _ within => exact ⟨held, within⟩
  | @begun around s i c key _ start ih =>
    obtain ⟨held, within⟩ := ih
    rcases within.start key with
      ⟨other, _⟩ | ⟨_, ⟨_, _, other, _⟩ | ⟨_, _, same, within⟩⟩
    · cases other.symm.trans start
    · cases other.symm.trans start
    · cases same.symm.trans start
      exact ⟨_, within⟩

/-- **What a build may do to the cache that it builds for.** However a cache came to be used, and
whatever builds are in progress there: a call that gets, stores or removes the snapshot of a key
goes through exactly if the key is not that of a build around the call which began since the cache
was last cleared, and a call that clears the cache or asks for its size always goes through. So a
build, with any closure, completes exactly if no call during it, and no build inside of it, is for
the key of such a build around. -/
theorem Routine.build_completes_iff (o : Outside τ) {around : Around} {s : Stage τ}
    (reached : Reached o around s) :
    (∀ r : Request, (∃ x s', s.ask r = .ok (x, s')) ↔ ∀ key ∈ r.key?, key ∉ s.holders around) ∧
    ∀ (key : String) (closure : Routine τ),
      (∃ r s', ResponseCache.getOrBuild o.stage key (closure.run o) s = .ok (r, s')) ↔
        ∀ l ∈ s.buildLocks around key (closure.locks o), l.key ∉ l.holders := by
  obtain ⟨held, within⟩ := reached.within
  constructor
  · intro r
    refine (within.ask r).completes_iff.trans ?_
    unfold Stage.locks
    cases r.key? <;> simp
  · intro key closure
    have ends := within.getOrBuild o key (closure.run o) (closure.locks o)
      fun _ _ _ within => closure.run_ends o within
    exact ends.completes_iff

/-- A routine that clears the cache and goes on with the keys `k` and `j`. -/
def Routine.reopening : Routine Unit :=
  .call .clear fun _ => .call (.get "k") fun _ => .call (.remove "j") fun _ =>
    .yield (.ok (.replayed default))

/-- During a build of `j` its key cannot be asked for. A build of `k` that clears the cache first
may ask for both keys. -/
theorem Routine.reopening_completes : ∃ s : Stage Unit, Reached .quiet [("j", 0)] s ∧
    (¬ ∃ x s', s.ask (.get "j") = .ok (x, s')) ∧
    ∃ r s', ResponseCache.getOrBuild Outside.quiet.stage "k" (reopening.run .quiet) s =
      .ok (r, s') := by
  have reached := Reached.begun (o := .quiet) "j" (.opened ()) rfl
  obtain ⟨calls, builds⟩ := build_completes_iff .quiet reached
  refine ⟨_, reached, ?_, ?_⟩
  · rw [calls]
    decide
  · rw [builds]
    decide

/-- Whatever it is answered, the routine does not remove the key. -/
def Routine.Spares (key : String) : Routine τ → Prop
  | yield _ => True
  | aside _ next => ∀ t, (next t).Spares key
  | call r next => (∀ removed, r = .remove removed → removed ≠ key) ∧ ∀ x, (next x).Spares key
  | build _ closure next => closure.Spares key ∧ ∀ r, (next r).Spares key

/-- A routine that asks for the key `k` and ends. -/
def Routine.peeking : Routine Unit :=
  .call (.get "k") fun _ => .yield (.ok (.replayed default))

/-- It is not enough that a build does not remove its own key: a build that gets it is stuck. -/
theorem Routine.own_key_stuck : ¬ ∀ (key : String) (closure : Routine Unit), closure.Spares key →
    ∃ r s', ResponseCache.getOrBuild Outside.quiet.stage key (closure.run .quiet) (.opened ()) =
      .ok (r, s') := by
  intro enough
  have spares : peeking.Spares "k" := ⟨nofun, fun _ => trivial⟩
  obtain ⟨_, _, done⟩ := enough "k" peeking spares
  cases done

end Docroot
