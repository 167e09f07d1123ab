import Docroot.Proofs.Resolution

/-!
The texts in a content cache.

File systems that share a content cache put into it what they read from disk, after a miss and
never for a folder. `peek_apply` says which effects change an entry. From there it follows call by
call that an entry was on disk before, and that it stays until it is removed, whatever becomes of
the file.
-/

namespace Docroot

namespace Table

variable {κ α : Type} [DecidableEq κ]

theorem size_insert_new {t : Table κ α} {k : κ} {v : α} (new : t.find? k = none) :
    (t.insert k v).size = t.size + 1 := by
  have pairs : (t.insert k v).pairs = t.pairs ++ [(k, v)] := store_new new
  rw [size, pairs, List.length_append]
  rfl

end Table

namespace ContentCache

/-- A write changes no entry but its own. -/
theorem peek_write_of_ne (c : ContentCache) {k k' : String} (t : String) (ne : k ≠ k') :
    (c.write k t).peek k' = c.peek k' := by
  simp only [peek, write]
  split
  · rw [Table.find?_insert, if_neg ne]
  · rfl

end ContentCache

namespace Effect

variable {s : Server} {b : Nat} {k : String}

/-- A new cache looks like one that is not there. -/
theorem cache_addCache {t : ContentCache} (lawful : (addCache t).Lawful s) (b : Nat) :
    (((addCache t).apply s).cache b).entries = (s.cache b).entries ∧
    (((addCache t).apply s).cache b).writes = (s.cache b).writes := by
  simp only [apply, Server.cache, getD_push]
  split
  · rename_i new
    rw [new, getD_beyond _ _ _ (Nat.le_refl _), lawful.1, lawful.2]
    exact ⟨rfl, rfl⟩
  · exact ⟨rfl, rfl⟩

/-- What changes an entry of a cache. -/
theorem peek_apply {e : Effect} (lawful : e.Lawful s)
    (changed : ((e.apply s).cache b).peek k ≠ (s.cache b).peek k) :
    (∃ p text, e = .fill p text ∧ (s.system (s.node p).system).cache = b ∧
      (s.node p).key = k ∧ ((e.apply s).cache b).peek k = some text) ∨
    (∃ text, e = .overwrite b k text) ∨
    (e = .drop b k ∨ e = .wipe b) ∧ ((e.apply s).cache b).peek k = none := by
  cases e with
  | ask c key =>
    refine absurd ?_ changed
    simp only [apply, Server.cache_setCache]
    split
    · rename_i same
      rw [ContentCache.peek_read, same.1]
    · rfl
  | addCache t =>
    exact absurd (congrArg (·.find? k) (cache_addCache lawful b).1) changed
  | fill p text =>
    simp only [apply, Server.fillCache, Server.cache_setCache] at changed ⊢
    split at changed
    · rename_i same
      obtain ⟨rfl, known⟩ := same
      by_cases ofKey : (s.node p).key = k
      · subst ofKey
        cases keeps : (s.cache (s.system (s.node p).system).cache).keeps with
        | true =>
          refine .inl ⟨p, text, rfl, rfl, rfl, ?_⟩
          rw [if_pos ⟨rfl, known⟩, ContentCache.peek_write _ _ _ _ keeps, if_pos rfl]
        | false => simp [ContentCache.peek, ContentCache.write, keeps] at changed
      · exact absurd (ContentCache.peek_write_of_ne _ _ ofKey) changed
    · exact absurd rfl changed
  | overwrite c key text =>
    simp only [apply, Server.cache_setCache] at changed
    split at changed
    · rename_i same
      obtain ⟨rfl, _⟩ := same
      by_cases ofKey : key = k
      · exact .inr (.inl ⟨text, by rw [ofKey]⟩)
      · exact absurd (ContentCache.peek_write_of_ne _ _ ofKey) changed
    · exact absurd rfl changed
  | drop c key =>
    simp only [apply, Server.cache_setCache] at changed ⊢
    split at changed
    · rename_i same
      obtain ⟨rfl, known⟩ := same
      by_cases ofKey : key = k
      · subst ofKey
        refine .inr (.inr ⟨.inl rfl, ?_⟩)
        rw [if_pos ⟨rfl, known⟩]
        exact Table.find?_erase_self _ _
      · simp [ContentCache.peek, ContentCache.remove, Table.find?_erase, ofKey] at changed
    · exact absurd rfl changed
  | wipe c =>
    simp only [apply, Server.cache_setCache] at changed ⊢
    split at changed
    · rename_i same
      obtain ⟨rfl, known⟩ := same
      refine .inr (.inr ⟨.inr rfl, ?_⟩)
      rw [if_pos ⟨rfl, known⟩]
      rfl
    · exact absurd rfl changed
  | _ => exact absurd rfl changed

/-- An entry stays until it is overwritten or removed. -/
theorem peek_kept {e : Effect} (lawful : e.Lawful s) {t : String}
    (entry : (s.cache b).peek k = some t) (overwrites : ∀ text, e ≠ .overwrite b k text)
    (drops : e ≠ .drop b k) (wipes : e ≠ .wipe b) : ((e.apply s).cache b).peek k = some t := by
  refine Classical.byContradiction fun other => ?_
  rw [← entry] at other
  rcases peek_apply lawful other with ⟨p, text, rfl, rfl, rfl, _⟩ | ⟨text, rfl⟩ | ⟨rfl | rfl, _⟩
  · obtain ⟨_, _, missed, _⟩ := lawful
    rw [missed] at entry
    cases entry
  · exact overwrites text rfl
  · exact drops rfl
  · exact wipes rfl

theorem keeps_apply (e : Effect) (known : b < s.caches.size) :
    ((e.apply s).cache b).keeps = (s.cache b).keeps := by
  cases e with
  | ask | fill | overwrite | drop | wipe =>
    simp only [apply, Server.fillCache, Server.cache_setCache]
    split
    · rename_i same
      rw [← same.1]
      rfl
    · rfl
  | addCache t => simp only [apply, Server.cache, getD_push, Nat.ne_of_lt known, if_false]
  | _ => rfl

/-- A cache that keeps what is written to it did so before. -/
theorem keeps_of_apply {e : Effect} (keeps : ((e.apply s).cache b).keeps = true) :
    (s.cache b).keeps = true := by
  rcases Nat.lt_or_ge b s.caches.size with known | beyond
  · rw [← keeps, e.keeps_apply known]
  · rw [s.cache_beyond beyond]
    rfl

/-- The server writes to a cache only what is missing there: it writes as often as entries are
added. -/
theorem writes_apply {e : Effect} (lawful : e.Lawful s) (keeps : (s.cache b).keeps = true)
    (overwrites : ∀ key text, e ≠ .overwrite b key text) (drops : ∀ key, e ≠ .drop b key)
    (wipes : e ≠ .wipe b) :
    ((e.apply s).cache b).writes + (s.cache b).size =
      (s.cache b).writes + ((e.apply s).cache b).size := by
  cases e with
  | ask c key =>
    simp only [apply, Server.cache_setCache]
    split
    · rename_i same
      rw [← same.1]
      rfl
    · rfl
  | fill p text =>
    obtain ⟨_, _, missed, _⟩ := lawful
    simp only [apply, Server.fillCache, Server.cache_setCache]
    split
    · rename_i same
      rw [same.1] at missed ⊢
      have added := Table.size_insert_new (v := text) missed
      simp only [ContentCache.size, ContentCache.write, keeps, if_true, added]
      omega
    · rfl
  | addCache t =>
    obtain ⟨entries, writes⟩ := cache_addCache lawful b
    simp only [ContentCache.size, entries, writes]
  | overwrite c key text =>
    have other : c ≠ b := fun same => overwrites key text (same ▸ rfl)
    simp [apply, Server.cache_setCache, other]
  | drop c key =>
    have other : c ≠ b := fun same => drops key (same ▸ rfl)
    simp [apply, Server.cache_setCache, other]
  | wipe c =>
    have other : c ≠ b := fun same => wipes (same ▸ rfl)
    simp [apply, Server.cache_setCache, other]
  | _ => rfl

end Effect

namespace Server

variable {s t : Server} {call : Call} {calls : List Call} {a : Answer} {c p : Nat}
  {k text : String}

/-! ## Entries from call to call -/

theorem may_overwrite (kind : call.may (.overwrite c k text)) : call = .writeText c k text := by
  cases call with
  | writeText c k text =>
    cases kind
    rfl
  | _ => simp [Call.may, Effect.Looks, Effect.Creates] at kind

theorem may_drop (kind : call.may (.drop c k)) : call = .removeText c k := by
  cases call with
  | removeText c k =>
    cases kind
    rfl
  | _ => simp [Call.may, Effect.Looks, Effect.Creates] at kind

theorem may_wipe (kind : call.may (.wipe c)) : call = .clearTexts c := by
  cases call with
  | clearTexts c =>
    cases kind
    rfl
  | _ => simp [Call.may, Effect.Looks, Effect.Creates] at kind

/-- A call that may read texts into a cache does nothing but look. -/
theorem may_fill (kind : call.may (.fill p text)) (e : Effect) (kind' : call.may e) : e.Looks := by
  cases call <;> first | exact kind' | simp [Call.may, Effect.Creates] at kind

section

variable [MediaTypes]

theorem perform_entry (h : s.perform call = some (a, t)) (entry : (s.cache c).peek k = some text)
    (overwrites : ∀ text, call ≠ .writeText c k text) (removes : call ≠ .removeText c k)
    (clears : call ≠ .clearTexts c) : (t.cache c).peek k = some text := by
  refine (perform_goes h).keeps (I := fun t => (t.cache c).peek k = some text)
    (fun u e kind lawful entry => e.peek_kept lawful entry ?_ ?_ ?_) entry
  · rintro text rfl
    exact overwrites text (may_overwrite kind)
  · rintro rfl
    exact removes (may_drop kind)
  · rintro rfl
    exact clears (may_wipe kind)

theorem run_entry (ran : s.run calls = some t) (entry : (s.cache c).peek k = some text)
    (overwrites : ∀ text, .writeText c k text ∉ calls) (removes : .removeText c k ∉ calls)
    (clears : .clearTexts c ∉ calls) : (t.cache c).peek k = some text := by
  induction calls generalizing s with
  | nil =>
    cases ran
    exact entry
  | cons call rest ih =>
    obtain ⟨a, u, first, ran⟩ := run_cons ran
    refine ih ran (perform_entry first entry ?_ ?_ ?_) ?_ ?_ ?_
    · exact fun text same => overwrites text (same ▸ List.mem_cons_self)
    · exact fun same => removes (same ▸ List.mem_cons_self)
    · exact fun same => clears (same ▸ List.mem_cons_self)
    · exact fun text mem => overwrites text (List.mem_cons_of_mem _ mem)
    · exact fun mem => removes (List.mem_cons_of_mem _ mem)
    · exact fun mem => clears (List.mem_cons_of_mem _ mem)

theorem perform_writes (h : s.perform call = some (a, t)) (keeps : (t.cache c).keeps = true)
    (overwrites : ∀ key text, call ≠ .writeText c key text)
    (removes : ∀ key, call ≠ .removeText c key) (clears : call ≠ .clearTexts c) :
    (t.cache c).writes + (s.cache c).size = (s.cache c).writes + (t.cache c).size := by
  refine (perform_goes h).keeps (I := fun t => (t.cache c).keeps = true →
    (t.cache c).writes + (s.cache c).size = (s.cache c).writes + (t.cache c).size)
    (fun u e kind lawful before keeps => ?_) (fun _ => rfl) keeps
  have keeps' := e.keeps_of_apply keeps
  have now := e.writes_apply lawful keeps' ?_ ?_ ?_
  · have before := before keeps'
    omega
  · rintro key text rfl
    exact overwrites key text (may_overwrite kind)
  · rintro key rfl
    exact removes key (may_drop kind)
  · rintro rfl
    exact clears (may_wipe kind)

end

theorem Goes.keeps_before {P : Effect → Prop} (h : Goes P s t)
    (keeps : (t.cache c).keeps = true) : (s.cache c).keeps = true := by
  induction h with
  | stay => exact keeps
  | step e _ _ _ ih => exact ih (e.keeps_of_apply keeps)

/-- A cache that keeps what is written to it. -/
def Keeps (s : Server) (c : Nat) : Prop := c < s.caches.size ∧ (s.cache c).keeps = true

theorem Keeps.goes {P : Effect → Prop} (keeps : s.Keeps c) (h : Goes P s t) : t.Keeps c :=
  h.keeps (I := fun t => t.Keeps c)
    (fun t e _ _ ⟨known, keeps⟩ => ⟨Nat.lt_of_lt_of_le known (e.size_caches_apply t),
      (e.keeps_apply known).trans keeps⟩) keeps

theorem Goes.keeps_after {P : Effect → Prop} (h : Goes P s t) (known : c < s.caches.size)
    (keeps : (s.cache c).keeps = true) : (t.cache c).keeps = true :=
  (Keeps.goes ⟨known, keeps⟩ h).2

/-! ## Where texts come from -/

/-- On the disk `d`, the text of a file that uses the cache `c` under the key `k`. -/
def Source (s : Server) (c : Nat) (d : Disk) (k text : String) : Prop :=
  ∃ p, p < s.nodes.size ∧ (s.node p).key = k ∧ (s.node p).isFolder = false ∧
    (s.node p).present = true ∧ (s.system (s.node p).system).cache = c ∧
    textOnDisk d (Utf8.ofText (Key.below (s.system (s.node p).system).root k)) = .ok text

theorem Source.goes {P : Effect → Prop} {d : Disk} (sound : s.Sound)
    (source : s.Source c d k text) (h : Goes P s t) : t.Source c d k text := by
  obtain ⟨p, known, key, file, present, cache, read⟩ := source
  have became := h.became known
  obtain ⟨root', cache', _⟩ := h.system_kept (sound.made p known).system
  refine ⟨p, Nat.lt_of_lt_of_le known h.size_nodes, became.key.trans key,
    became.isFolder.trans file, became.present present, ?_, ?_⟩
  · rw [became.system, cache', cache]
  · rw [became.system, root', read]

theorem source_fill (sound : s.Sound) (lawful : (Effect.fill p text).Lawful s) :
    s.Source (s.system (s.node p).system).cache s.disk (s.node p).key text := by
  obtain ⟨present, file, _, read⟩ := lawful
  have known := s.known_of_present present
  rw [(sound.made p known).diskPath] at read
  exact ⟨p, known, rfl, file, present, rfl, read⟩

/-- What a call adds to a cache is on disk when the call is made. -/
theorem perform_source [MediaTypes] (sound : s.Sound) (h : s.perform call = some (a, t))
    (overwrites : ∀ text, call ≠ .writeText c k text) (entry : (t.cache c).peek k = some text) :
    (s.cache c).peek k = some text ∨ t.Source c s.disk k text := by
  have goes := perform_goes h
  clear h
  induction goes with
  | stay => exact .inl entry
  | @step u e before kind lawful ih =>
    have soundThen := sound.goes before
    have goes := Goes.one (P := call.may) e kind lawful
    by_cases same : ((e.apply u).cache c).peek k = (u.cache c).peek k
    · rcases ih (same ▸ entry) with old | source
      · exact .inl old
      · exact .inr (source.goes soundThen goes)
    · rcases Effect.peek_apply lawful same with
        ⟨p, text', rfl, rfl, rfl, filled⟩ | ⟨text', rfl⟩ | ⟨_, gone⟩
      · obtain rfl : text' = text := Option.some.inj (filled.symm.trans entry)
        have disk := (before.mono (may_fill kind)).disk_kept
        exact .inr (disk ▸ (source_fill soundThen lawful).goes soundThen goes)
      · exact absurd (may_overwrite kind) (overwrites text')
      · rw [gone] at entry
        cases entry

theorem run_source [MediaTypes] (sound : s.Sound) (ran : s.run calls = some t)
    (overwrites : ∀ text, .writeText c k text ∉ calls) (entry : (t.cache c).peek k = some text) :
    (s.cache c).peek k = some text ∨
    ∃ before after m, calls = before ++ after ∧ s.run before = some m ∧
      t.Source c m.disk k text := by
  induction calls generalizing s with
  | nil =>
    cases ran
    exact .inl entry
  | cons call rest ih =>
    obtain ⟨a, u, first, ran⟩ := run_cons ran
    have soundThen := sound.goes (perform_goes first)
    rcases ih soundThen ran fun text mem => overwrites text (List.mem_cons_of_mem _ mem) with
      there | ⟨before, after, m, rfl, led, source⟩
    · have notThis (text : String) : call ≠ .writeText c k text := fun same =>
        overwrites text (same ▸ List.mem_cons_self)
      rcases perform_source sound first notThis there with old | source
      · exact .inl old
      · exact .inr ⟨[], call :: rest, s, rfl, rfl, source.goes soundThen (run_goes_any ran)⟩
    · exact .inr ⟨call :: before, after, m, rfl, (run_cons_of first).trans led, source⟩

/-- The key of the root leads to a folder, so no text is under it. -/
theorem textOnDisk_root {d : Disk} (tree : d.IsTree) (root : String) :
    textOnDisk d (Utf8.ofText (Key.below root "")) ≠ .ok text := by
  intro read
  simp only [textOnDisk] at read
  split at read
  · cases read
  · rename_i content found
    rcases Key.below_root root with empty | last
    · rw [empty] at found
      cases found
    · exact Disk.read_of_endsOpen tree (Disk.endsOpen_ofText last) content found

/-- What has a text on disk is no folder. -/
theorem Made.file_of_text {d : Disk} {n : PathNode} (made : s.Made n) (tree : d.IsTree)
    (read : textOnDisk d (Utf8.ofText n.diskPath) = .ok text) : n.isFolder = false := by
  cases folder : n.isFolder with
  | false => rfl
  | true =>
    obtain ⟨raw, key⟩ := made.key
    rw [folder] at key
    rw [made.diskPath] at read
    by_cases root : n.key = ""
    · rw [root] at read
      exact absurd read (textOnDisk_root tree _)
    · have last : (Key.below (s.system n.system).root n.key).toList.getLast? = some '/' := by
        rw [Key.below_last _ root, key]
        exact Key.normalize_folder_last (key ▸ root)
      simp only [textOnDisk] at read
      split at read
      · cases read
      · rename_i content found
        exact absurd found (Disk.read_of_endsOpen tree (Disk.endsOpen_ofText last) content)

/-- A text is under the key of a file, which is not the key of a folder. -/
theorem Source.isFolder {d : Disk} (sound : s.Sound) (tree : d.IsTree)
    (source : s.Source c d k text) {q : Nat} (known : q < s.nodes.size)
    (ofKey : (s.node q).key = k) : (s.node q).isFolder = false := by
  obtain ⟨p, pKnown, key, file, _, _, read⟩ := source
  obtain ⟨raw, shape⟩ := (sound.made p pKnown).key
  obtain ⟨raw', shape'⟩ := (sound.made q known).key
  have below : k ≠ "" := by
    rintro rfl
    exact textOnDisk_root tree _ read
  rw [key, file] at shape
  cases folder : (s.node q).isFolder with
  | false => rfl
  | true =>
    rw [ofKey, folder] at shape'
    exact absurd (shape'.symm.trans shape) (Key.normalize_ne (shape' ▸ below))

/-! ## Reading -/

/-- A text that is in the cache is served from there. -/
theorem readText_hit (entry : (s.cache (s.system (s.node p).system).cache).peek (s.node p).key =
    some text) :
    s.readText p = (.ok text, (s.askCache (s.node p)).2.report (.contentHit (s.node p).key)) := by
  have found : (s.askCache (s.node p)).1 = some text := entry
  simp only [readText, found]

theorem readText_entry (entry : (s.cache (s.system (s.node p).system).cache).peek (s.node p).key =
    some text) : (s.readText p).1 = .ok text := by
  rw [readText_hit entry]

/-- Reading goes to the disk when the cache was asked in vain. -/
theorem readText_missed (missed : (s.askCache (s.node p)).1 = none) : s.readText p =
    let u := (s.askCache (s.node p)).2.report (.contentMiss (s.node p).key)
    if !(s.node p).present then (.ok "", u)
    else if (s.node p).isFolder then
      u.settle ((s.configOf (s.node p)).ioPolicy.recover (.isDirectory (s.node p).diskPath) "")
    else match textOnDisk s.disk (Utf8.ofText (s.node p).diskPath) with
      | .ok text => (.ok text, u.fillCache (s.node p) text)
      | .error e =>
        u.settle ((s.configOf (s.node p)).ioPolicy.judge (s.node p).diskPath (.error e) "") := by
  simp only [readText, missed]
  rfl

/-- A path without a text that can be read adds nothing to any cache. -/
theorem readText_unread (unread : (s.node p).present = false ∨ (s.node p).isFolder = true ∨
    ∀ text, textOnDisk s.disk (Utf8.ofText (s.node p).diskPath) ≠ .ok text) (c : Nat) (k : String) :
    ((s.readText p).2.cache c).peek k = (s.cache c).peek k := by
  simp only [readText]
  split
  · exact s.peek_askCache _ c k
  · split
    · exact s.peek_askCache _ c k
    · rename_i present
      split
      · rw [cache_settle]
        exact s.peek_askCache _ c k
      · rename_i file
        split
        · rename_i read
          rcases unread with missing | folder | unread
          · simp [missing] at present
          · exact absurd folder file
          · exact absurd read (unread _)
        · rw [cache_settle]
          exact s.peek_askCache _ c k

/-- The content cache of a path. -/
def cacheOf (s : Server) (p : Nat) : Nat := (s.system (s.node p).system).cache

/-- The text that a path has on disk: it is a file that was there, and its bytes are a text. -/
def textAt (s : Server) (p : Nat) : Option String :=
  if (s.node p).present && !(s.node p).isFolder then
    (textOnDisk s.disk (Utf8.ofText (s.node p).diskPath)).toOption
  else none

theorem textAt_eq_some_iff : s.textAt p = some text ↔ (s.node p).present = true ∧
    (s.node p).isFolder = false ∧
    textOnDisk s.disk (Utf8.ofText (s.node p).diskPath) = .ok text := by
  rw [textAt]
  cases (s.node p).present <;> cases (s.node p).isFolder <;>
    cases textOnDisk s.disk (Utf8.ofText (s.node p).diskPath) <;> simp [Except.toOption]

theorem peek_fillCache {n : PathNode} (keeps : s.Keeps (s.system n.system).cache) (text : String)
    (c : Nat) (k : String) : ((s.fillCache n text).cache c).peek k =
      if (s.system n.system).cache = c ∧ n.key = k then some text else (s.cache c).peek k := by
  simp only [fillCache, cache_setCache]
  by_cases here : (s.system n.system).cache = c
  · subst here
    rw [if_pos ⟨rfl, keeps.1⟩, ContentCache.peek_write _ _ _ _ keeps.2]
    simp only [true_and]
  · rw [if_neg fun same => here same.1, if_neg fun same => here same.1]

/-- Reading puts the text of a file into an empty place. -/
theorem peek_readText (keeps : s.Keeps (s.cacheOf p)) (c : Nat) (k : String) :
    ((s.readText p).2.cache c).peek k = ((s.cache c).peek k).or
      (if s.cacheOf p = c ∧ (s.node p).key = k then s.textAt p else none) := by
  cases entry : (s.cache (s.cacheOf p)).peek (s.node p).key with
  | some held =>
    rw [readText_hit entry, cache_report, peek_askCache]
    split
    · rename_i same
      rw [same.1, same.2] at entry
      rw [entry, Option.some_or]
    · rw [Option.or_none]
  | none =>
    cases offer : s.textAt p with
    | none =>
      have unread : (s.node p).present = false ∨ (s.node p).isFolder = true ∨
          ∀ text, textOnDisk s.disk (Utf8.ofText (s.node p).diskPath) ≠ .ok text := by
        by_contra readable
        simp only [not_or, not_forall, not_not, Bool.not_eq_false, Bool.not_eq_true] at readable
        obtain ⟨present, file, text, read⟩ := readable
        rw [textAt_eq_some_iff.mpr ⟨present, file, read⟩] at offer
        cases offer
      rw [readText_unread unread, ite_self, Option.or_none]
    | some text =>
      obtain ⟨present, file, read⟩ := textAt_eq_some_iff.mp offer
      have asked : (s.askCache (s.node p)).1 = none := entry
      have filled : (s.readText p).2 = ((s.askCache (s.node p)).2.report
          (.contentMiss (s.node p).key)).fillCache (s.node p) text := by
        simp [readText_missed asked, present, file, read]
      have keeps : ((s.askCache (s.node p)).2.report (.contentMiss (s.node p).key)).Keeps
          (s.cacheOf p) :=
        keeps.goes (.step (.note _) (askCache_goes s (s.node p)) trivial trivial)
      rw [filled, peek_fillCache keeps, cache_report, peek_askCache]
      by_cases here : s.cacheOf p = c ∧ (s.node p).key = k
      · obtain ⟨rfl, rfl⟩ := here
        rw [entry, Option.none_or, if_pos ⟨rfl, rfl⟩, if_pos ⟨rfl, rfl⟩]
      · rw [if_neg here, Option.or_none]
        exact if_neg here

/-- A file that is read after a miss is in the cache then. -/
theorem readText_fills (ofCache : (s.system (s.node p).system).cache = c)
    (ofKey : (s.node p).key = k) (present : (s.node p).present = true)
    (file : (s.node p).isFolder = false)
    (read : textOnDisk s.disk (Utf8.ofText (s.node p).diskPath) = .ok text)
    (known : c < s.caches.size) (keeps : (s.cache c).keeps = true)
    (missed : (s.cache c).peek k = none) : ((s.readText p).2.cache c).peek k = some text := by
  subst ofCache ofKey
  have offer : s.textAt p = some text := textAt_eq_some_iff.mpr ⟨present, file, read⟩
  rw [peek_readText ⟨known, keeps⟩, missed, Option.none_or, if_pos ⟨rfl, rfl⟩, offer]

section

variable [MediaTypes]

theorem perform_readText (known : p < s.nodes.size) :
    s.perform (.readText p) = some (.text (s.readText p).1, (s.readText p).2) := by
  simp [perform, knows, carryOut, known]

/-- **A content cache holds what was on disk, until it is removed.** In any run in which the client
may remove texts from a cache but puts none into it:

* each text in the cache is under the key of a file and of no folder, and at some moment before it
  was the text of that file on disk, below the root of a file system that uses the cache;
* a text that is there stays as long as its key is not removed, and until then every path with this
  key is read as this text, whatever happens to the disk;
* what a call adds is the text that a file has on disk when the call is made; unless the client
  removes texts, the call leaves those alone that are there, and writes as often as it adds one, so
  it never writes over a text;
* a path that is missing, a folder, or a file whose text cannot be read adds nothing. -/
theorem texts_from_disk {d : Tree} (ran : (start d).run calls = some s)
    (memory : (s.cache c).keeps = true) (overwrites : ∀ k text, .writeText c k text ∉ calls) :
    (∀ k text, (s.cache c).peek k = some text →
      (∃ before after m, calls = before ++ after ∧ (start d).run before = some m ∧
        s.Source c m.disk k text) ∧
      ∀ q, q < s.nodes.size → (s.node q).key = k → (s.node q).isFolder = false) ∧
    (∀ before after m k text, calls = before ++ after → (start d).run before = some m →
      (m.cache c).peek k = some text → .removeText c k ∉ after → .clearTexts c ∉ after →
      (s.cache c).peek k = some text ∧
      ∀ p, p < s.nodes.size → (s.node p).key = k → (s.system (s.node p).system).cache = c →
        ∃ s', s.perform (.readText p) = some (.text (.ok text), s')) ∧
    (∀ before call after m a m', calls = before ++ call :: after →
      (start d).run before = some m → m.perform call = some (a, m') →
      (∀ k text, (m'.cache c).peek k = some text →
        (m.cache c).peek k = some text ∨ m'.Source c m.disk k text) ∧
      ((∀ k, call ≠ .removeText c k) → call ≠ .clearTexts c →
        (∀ k text, (m.cache c).peek k = some text → (m'.cache c).peek k = some text) ∧
        (m'.cache c).writes + (m.cache c).size = (m.cache c).writes + (m'.cache c).size)) ∧
    (∀ p a s', s.perform (.readText p) = some (a, s') →
      ((s.node p).present = false ∨ (s.node p).isFolder = true ∨
        ∀ text, textOnDisk s.disk (Utf8.ofText (s.node p).diskPath) ≠ .ok text) →
      ∀ k, (s'.cache c).peek k = (s.cache c).peek k) := by
  have sound := (start_sound d).goes (run_goes_any ran)
  refine ⟨fun k text entry => ?_, fun before after m k text split led entry removes clears => ?_,
    fun before call after m a m' split led h => ?_, fun p a s' h unread k => ?_⟩
  · rcases run_source (start_sound d) ran (fun text => overwrites k text) entry with
      old | ⟨before, after, m, split, led, source⟩
    · rw [cache_beyond _ (Nat.zero_le c)] at old
      cases old
    · have tree := ((start_sound d).goes (run_goes_any led)).tree
      exact ⟨⟨before, after, m, split, led, source⟩,
        fun q known ofKey => source.isFolder sound tree known ofKey⟩
  · subst split
    rw [run_append_of led] at ran
    have stays := run_entry ran entry
      (fun text mem => overwrites k text (List.mem_append_right _ mem)) removes clears
    refine ⟨stays, fun p known ofKey ofCache => ⟨(s.readText p).2, ?_⟩⟩
    subst ofKey ofCache
    rw [perform_readText known, readText_entry stays]
  · subst split
    have notThis (k text : String) : call ≠ .writeText c k text := fun same =>
      overwrites k text (same ▸ List.mem_append_right _ List.mem_cons_self)
    have soundThen := (start_sound d).goes (run_goes_any led)
    refine ⟨fun k text entry => perform_source soundThen h (notThis k) entry,
      fun removes clears => ?_⟩
    refine ⟨fun k text entry => perform_entry h entry (notThis k) (removes k) clears, ?_⟩
    rw [run_append_of led] at ran
    obtain ⟨a', u, h', ran⟩ := run_cons ran
    obtain ⟨rfl, rfl⟩ : a = a' ∧ m' = u := by simpa [h] using h'
    exact perform_writes h ((run_goes_any ran).keeps_before memory) notThis removes clears
  · obtain ⟨known, done⟩ := perform_eq h
    cases done
    exact readText_unread unread c k

/-- The file `x.txt` once it was asked for, with nothing in the cache yet. -/
theorem resolve_textDisk : ∃ s,
    (start textDisk).run [.mount "/" none {}, .root 0, .resolve 0 0 "x.txt"] = some s ∧
    s.disk = textDisk.1 ∧ 1 < s.nodes.size ∧ s.caches = #[.memory] ∧ (s.system 0).cache = 0 ∧
    s.node 1 = ⟨0, "x.txt", false, "/x.txt", true, none⟩ := by
  obtain ⟨s, ran, disk, systems, nodes, caches, root, cache, free, key⟩ := start_textDisk
  have known : 0 < s.systems.size := by omega
  have path : Key.below "/" "x.txt" = "/x.txt" := by decide
  have isFile : s.classify 0 "x.txt" = false :=
    classify_of_stat (by rw [root, disk, path, stat_textDisk.1])
  have resolved := resolve_xtxt key (free _ (by decide)) (free _ (by decide)) isFile
  have new := free "x.txt" (by decide)
  have number : (s.intern 0 "x.txt" false).1 = 1 := by
    simp only [intern, new, nodes]
  have made : (s.intern 0 "x.txt" false).2.node (s.intern 0 "x.txt" false).1 =
      s.makeNode 0 "x.txt" false := intern_anew new
  have goes := resolve_goes known 0 "x.txt"
  have led : s.run [.resolve 0 0 "x.txt"] = some (s.resolve 0 0 "x.txt").2 :=
    run_cons_of (perform_resolve known (by omega) _)
  rw [resolved] at goes led
  rw [number] at made
  refine ⟨_, (run_append_of ran).trans led, (goes.mono Effect.Resolves.looks).disk_kept.trans disk,
    ?_, ?_, (goes.system_kept known).2.1.trans cache, ?_⟩
  · simp [intern, new, report, setSystem, nodes]
  · simp only [intern, new]
    exact caches
  · rw [made, makeNode, root, disk, path]
    simp only [Disk.exists?, stat_textDisk.1]

/-- The file `x.txt` once it was read, with its text in the cache. -/
theorem read_textDisk : ∃ s,
    (start textDisk).run [.mount "/" none {}, .root 0, .resolve 0 0 "x.txt", .readText 1] =
      some s ∧
    (s.cache 0).keeps = true ∧ (s.cache 0).peek "x.txt" = some "hi\n" ∧ 1 < s.nodes.size ∧
    (s.system 0).cache = 0 ∧ s.node 1 = ⟨0, "x.txt", false, "/x.txt", true, none⟩ := by
  obtain ⟨s, led, disk, known, caches, ofCache, made⟩ := resolve_textDisk
  have memory : s.cache 0 = .memory := by
    rw [Server.cache, caches]
    rfl
  have cacheKnown : 0 < s.caches.size := by
    rw [caches]
    exact Nat.zero_lt_one
  have text : textOnDisk textDisk.1 (Utf8.ofText "/x.txt") = .ok "hi\n" := by
    cbv
  have entry : ((s.readText 1).2.cache 0).peek "x.txt" = some "hi\n" :=
    readText_fills (by rw [made, ofCache]) (by rw [made]) (by rw [made]) (by rw [made])
      (by rw [made, disk, text]) cacheKnown (by rw [memory]; rfl) (by rw [memory]; rfl)
  have goes := readText_goes s 1
  obtain ⟨nodes, systems⟩ := goes.reads_kept
  refine ⟨_, run_snoc_of led (perform_readText known),
    goes.keeps_after cacheKnown (by rw [memory]; rfl), entry, by rw [nodes]; exact known, ?_, ?_⟩
  · rw [system, systems, ← system, ofCache]
  · rw [node, nodes, ← node, made]

end

attribute [local instance] MediaTypes.familiar

/-- The text of `x.txt` is in the cache once it was read, and was on disk. -/
theorem text_of_file : ∃ s before after m,
    (start textDisk).run [.mount "/" none {}, .root 0, .resolve 0 0 "x.txt", .readText 1] =
      some s ∧
    (s.cache 0).peek "x.txt" = some "hi\n" ∧
    [.mount "/" none {}, .root 0, .resolve 0 0 "x.txt", .readText 1] = before ++ after ∧
    (start textDisk).run before = some m ∧ s.Source 0 m.disk "x.txt" "hi\n" := by
  obtain ⟨s, ran, keeps, entry, _⟩ := read_textDisk
  obtain ⟨before, after, m, split, first, source⟩ :=
    ((texts_from_disk ran keeps (by simp)).1 "x.txt" "hi\n" entry).1
  exact ⟨s, before, after, m, ran, entry, split, first, source⟩

end Server

end Docroot
