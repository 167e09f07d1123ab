import Docroot.Proofs.History

/-!
Cookie calls, one after the other.

A cookie is told apart from another by the text that it is written as. A call puts its text behind
those of the calls before and takes an earlier copy away, so that the values of `Set-Cookie` are the
texts of the calls in the order of their last use, each of them once.
-/

namespace Docroot

/-! ## Last occurrences -/

section LastOccurrences

variable {α : Type} [DecidableEq α]

/-- What comes once more moves to the end. -/
theorem dedup_snoc (l : List α) (a : α) :
    (l ++ [a]).dedup = l.dedup.filter (fun b => b ≠ a) ++ [a] := by
  induction l with
  | nil => simp
  | cons b rest ih =>
    rw [List.cons_append, List.dedup_cons, List.dedup_cons, ih]
    by_cases same : b = a
    · subst same
      by_cases mem : b ∈ rest <;> simp [mem]
    · by_cases mem : b ∈ rest <;> simp [mem, same]

/-- One stands before another if it was last used before the last use of the other. -/
theorem pair_sublist_dedup_iff {l : List α} {a b : α} :
    [a, b].Sublist l.dedup ↔
      ∃ before after, l = before ++ a :: after ∧ a ∉ after ∧ b ∈ after := by
  induction l with
  | nil => simp
  | cons c rest ih =>
    by_cases again : c ∈ rest
    · rw [List.dedup_cons_of_mem again, ih]
      constructor
      · rintro ⟨before, after, rfl, last, later⟩
        exact ⟨c :: before, after, rfl, last, later⟩
      · rintro ⟨before, after, split, last, later⟩
        cases before with
        | nil =>
          obtain ⟨rfl, rfl⟩ := List.cons.inj split
          exact absurd again last
        | cons _ before =>
          obtain ⟨rfl, rfl⟩ := List.cons.inj split
          exact ⟨before, after, rfl, last, later⟩
    · rw [List.dedup_cons_of_notMem again]
      constructor
      · intro sub
        cases sub with
        | cons _ sub =>
          obtain ⟨before, after, rfl, last, later⟩ := ih.mp sub
          exact ⟨c :: before, after, rfl, last, later⟩
        | cons_cons _ sub =>
          have later := List.mem_dedup.mp (List.singleton_sublist.mp sub)
          exact ⟨[], rest, rfl, again, later⟩
      · rintro ⟨before, after, split, last, later⟩
        cases before with
        | nil =>
          obtain ⟨rfl, rfl⟩ := List.cons.inj split
          exact (List.singleton_sublist.mpr (List.mem_dedup.mpr later)).cons_cons _
        | cons _ before =>
          obtain ⟨rfl, rfl⟩ := List.cons.inj split
          exact (ih.mpr ⟨before, after, rfl, last, later⟩).cons _

/-- The last of a kind stays the last. -/
theorem getLast?_filter_dedup (p : α → Bool) (l : List α) :
    (l.dedup.filter p).getLast? = (l.filter p).getLast? := by
  induction l using List.reverseRecOn with
  | nil => rfl
  | append_singleton l a ih =>
    rw [dedup_snoc, List.filter_append, List.filter_append]
    by_cases own : p a = true
    · simp [own]
    · have others : (l.dedup.filter fun b => b ≠ a).filter p = l.dedup.filter p := by
        rw [List.filter_filter]
        refine List.filter_congr ?_
        intro b _
        by_cases kind : p b = true
        · have differ : b ≠ a := fun same => own (same ▸ kind)
          simp [kind, differ]
        · simp [kind]
      rw [others]
      simpa [own] using ih

end LastOccurrences

/-! ## Texts of cookies -/

namespace Cookie

/-- What stands before the first `=` of a cookie's text. -/
def nameIn (text : String) : String := String.ofList (text.toList.takeWhile fun c => c ≠ '=')

theorem nameIn_text {c : Cookie} (plain : '=' ∉ c.name.toList) : nameIn c.text = c.name := by
  obtain ⟨rest, split⟩ : ∃ rest, c.text.toList = c.name.toList ++ '=' :: rest := by
    simp [text]
  have whole : ∀ x ∈ c.name.toList, decide (x ≠ '=') = true := by
    intro x mem
    have differ : x ≠ '=' := fun same => plain (same ▸ mem)
    simp [differ]
  rw [nameIn, split, List.takeWhile_append_of_pos whole]
  simp

end Cookie

namespace Header

variable (h : Header) (c : Cookie)

/-- A cookie call puts its text behind the others, where it stands once. -/
theorem values_setCookie : (h.setCookie c).values (h.standard .setCookie) =
    (h.values (h.standard .setCookie)).filter (fun v => v ≠ c.text) ++ [c.text] := by
  have left : (h.withoutCookie c).filter (fun e => e.1.agrees (h.standard .setCookie)) =
      (h.entries.filter fun e => e.1.agrees (h.standard .setCookie)).filter fun e =>
        e.2 ≠ c.text := by
    rw [withoutCookie, List.filter_filter, List.filter_filter]
    refine List.filter_congr ?_
    intro e _
    by_cases own : e.1.agrees (h.standard .setCookie) = true
    · by_cases alike : e.2 = c.text <;> simp [own, alike]
    · simp [own]
  rw [values, values, entries_cookie, List.filter_append, left, List.map_append, List.filter_map]
  simp [HeaderName.agrees_self, Function.comp_def]

/-- A call that is repeated at once changes nothing. -/
theorem setCookie_again : (h.setCookie c).setCookie c = h.setCookie c := by
  have left : (h.setCookie c).withoutCookie c = h.withoutCookie c := by
    have same : (h.setCookie c).standard .setCookie = h.standard .setCookie := rfl
    rw [withoutCookie, same, entries_cookie, List.filter_append, withoutCookie,
      List.filter_filter]
    simp [HeaderName.agrees_self]
  have made (h : Header) : h.setCookie c =
      { h with entries := h.withoutCookie c ++ [(h.standard .setCookie, c.text)] } := rfl
  rw [made (h.setCookie c), left]
  rfl

end Header

namespace Writing

/-- The cookie that is sent. -/
def cookie? : Writing → Option Cookie
  | cookie c => some c
  | _ => none

/-- Makes the client drop a cookie. -/
def removeCookie (name : String) : Writing := .cookie (Cookie.expired name)

end Writing

namespace Draft

variable {d : Draft} {w : Writing}

/-- The cookies that are sent, one after the other. -/
def cookiesOf (l : List Writing) : List Cookie := l.filterMap Writing.cookie?

theorem cookie?_eq_some {c : Cookie} (sent : w.cookie? = some c) : w = .cookie c := by
  cases w with
  | cookie c' => exact congrArg Writing.cookie (Option.some.inj sent)
  | _ => cases sent

/-- The steps are cookie calls, and others that do not touch the name of cookies. -/
def CookieRun (l : List Writing) : Prop :=
  ∀ w ∈ l, w.cookie?.isSome = true ∨ w.touches (nameKey StandardName.setCookie.text) = false

/-- After any calls the values of `Set-Cookie` are the texts of the cookies that were sent, in the
order of their last use. The induction follows the steps, with the texts so far. -/
theorem values_cookies [MediaTypes] {l : List Writing} {earlier : List String}
    (genuine : d.Genuine []) (proper : ∀ w ∈ l, w.Genuine []) (cookies : CookieRun l)
    (before : d.header.values (d.header.standard .setCookie) = earlier.dedup) :
    (d.run l).header.values (d.header.standard .setCookie) =
      (earlier ++ (cookiesOf l).map Cookie.text).dedup := by
  induction l generalizing d earlier with
  | nil => simpa [run, cookiesOf] using before
  | cons w rest ih =>
    obtain ⟨first, later⟩ := List.forall_mem_cons.mp proper
    obtain ⟨call, calls⟩ := List.forall_mem_cons.mp cookies
    have owner : (d.step w).header.standard .setCookie = d.header.standard .setCookie :=
      d.standard_run [w] .setCookie
    have go (texts : List String)
        (now : (d.step w).header.values (d.header.standard .setCookie) = texts.dedup) :
        (d.run (w :: rest)).header.values (d.header.standard .setCookie) =
          (texts ++ (cookiesOf rest).map Cookie.text).dedup := by
      rw [← owner] at now ⊢
      exact ih (genuine.step first) later calls now
    cases sent : w.cookie? with
    | some c =>
      obtain rfl := cookie?_eq_some sent
      have now : (d.header.setCookie c).values (d.header.standard .setCookie) =
          (earlier ++ [c.text]).dedup := by
        rw [Header.values_setCookie, before, dedup_snoc]
      rw [go _ now]
      simp [cookiesOf, Writing.cookie?]
    | none =>
      have free : w.touches (nameKey StandardName.setCookie.text) = false := by
        simpa [sent] using call
      have now : (d.step w).header.values (d.header.standard .setCookie) = earlier.dedup := by
        rw [values_step genuine first (Genuine.standard d .setCookie) free, before]
      rw [go _ now]
      simp [cookiesOf, sent]

/-- **The last cookie call wins, and no cookie is sent twice.** A header that starts without cookies
is worked on in any way, but what is done with the name `Set-Cookie` are cookie calls (a cookie is
dropped by a call with an expired one). Then its values are the texts of the cookies that were sent,
each of them once, in the order of their last use. To repeat the latest call leaves these values as
they are, and if it is repeated at once the whole header. Where no cookie's name holds a `=`, the
last value that names a cookie is the text of the last call for it. -/
theorem last_cookie_call_wins [MediaTypes] (d : Draft) (l : List Writing) (genuine : d.Genuine [])
    (proper : ∀ w ∈ l, w.Genuine []) (cookies : CookieRun l)
    (none : ∀ e ∈ d.header.entries, nameKey e.1.text ≠ nameKey StandardName.setCookie.text) :
    let e := d.run l
    let texts := (cookiesOf l).map Cookie.text
    let values := e.header.values (e.header.standard .setCookie)
    values.Nodup ∧ (∀ v, v ∈ values ↔ v ∈ texts) ∧
    (∀ v v', [v, v'].Sublist values ↔
      ∃ before after, texts = before ++ v :: after ∧ v ∉ after ∧ v' ∈ after) ∧
    (∀ c, (cookiesOf l).getLast? = some c →
      (e.step (.cookie c)).header.values (e.header.standard .setCookie) = values) ∧
    (∀ c, ((e.step (.cookie c)).step (.cookie c)).header = (e.step (.cookie c)).header) ∧
    ((∀ c ∈ cookiesOf l, '=' ∉ c.name.toList) → ∀ name,
      (values.filter fun v => Cookie.nameIn v = name).getLast? =
        ((cookiesOf l).filter fun c => c.name = name).getLast?.map Cookie.text) := by
  intro e texts values
  have empty : d.header.values (d.header.standard .setCookie) = ([] : List String).dedup := by
    have nothing : d.header.own (nameKey StandardName.setCookie.text) = [] := by
      rw [Header.own, List.filter_eq_nil_iff]
      intro e mem
      simpa using none e mem
    rw [Header.values_eq genuine.names (Genuine.standard d .setCookie)]
    exact congrArg (List.map Prod.snd) nothing
  have all : values = texts.dedup := by
    show e.header.values (e.header.standard .setCookie) = ([] ++ texts).dedup
    rw [d.standard_run l, values_cookies genuine proper cookies empty]
  refine ⟨?_, ?_, ?_, ?_, ?_, ?_⟩
  · rw [all]
    exact texts.nodup_dedup
  · intro v
    rw [all]
    exact List.mem_dedup
  · intro v v'
    rw [all]
    exact pair_sublist_dedup_iff
  · intro c latest
    obtain ⟨before, split⟩ := List.getLast?_eq_some_iff.mp latest
    have again : (e.header.setCookie c).values (e.header.standard .setCookie) =
        values.filter (fun v => v ≠ c.text) ++ [c.text] := Header.values_setCookie _ _
    have last : texts = before.map Cookie.text ++ [c.text] := by
      simp [texts, split]
    show (e.header.setCookie c).values (e.header.standard .setCookie) = values
    rw [again, all, last, dedup_snoc]
    simp [List.filter_filter]
  · intro c
    exact e.header.setCookie_again c
  · intro plain name
    rw [all, getLast?_filter_dedup, List.filter_map, List.getLast?_map]
    have named : ((cookiesOf l).filter ((fun v => decide (Cookie.nameIn v = name)) ∘ Cookie.text)) =
        (cookiesOf l).filter fun c => c.name = name := by
      refine List.filter_congr ?_
      intro c mem
      simp [Cookie.nameIn_text (plain c mem)]
    rw [named]

/-- A cookie is set, dropped, and set again as it was, with other values in between. -/
def setAgain : List Writing := [
  .cookie { name := "a", value := "1" }, .named " ETAG" "v1", .cookie { name := "b", value := "2" },
  .removeCookie "a", .date "Thu, 01 Jan 1970 00:00:00 GMT", .cookie { name := "a", value := "1" }]

attribute [local instance] MediaTypes.familiar

/-- The client ends with both cookies, and the one that was set again comes last. -/
theorem set_again_wins :
    let start := opened default false (Header.ok 0)
    let h := (start.run setAgain).header
    let values := h.values (h.standard .setCookie)
    start.Genuine [] ∧ (∀ w ∈ setAgain, w.Genuine []) ∧ CookieRun setAgain ∧
    (∀ e ∈ start.header.entries, nameKey e.1.text ≠ nameKey StandardName.setCookie.text) ∧
    (∀ c ∈ cookiesOf setAgain, '=' ∉ c.name.toList) ∧ ["b=2", "a=1"].Sublist values ∧
    (values.filter fun v => Cookie.nameIn v = "a").getLast? = some "a=1" ∧
    (values.filter fun v => Cookie.nameIn v = "b").getLast? = some "b=2" := by
  intro start h values
  have none : ∀ e ∈ start.header.entries,
      nameKey e.1.text ≠ nameKey StandardName.setCookie.text := by
    intro e mem
    cases mem
  have genuine : start.Genuine [] := by
    refine Genuine.opened default false ?_
    intro e mem
    cases mem
  have names : ∀ w ∈ setAgain, ∀ n ∈ w.names,
      n ∈ StandardName.all.map (HeaderName.standard 0) := by decide
  have proper : ∀ w ∈ setAgain, w.Genuine [] := by
    intro w mem
    exact Writing.genuine_of_seeded 0 (names w mem) fun c _ => c.spares_nil
  have cookies : CookieRun setAgain := by
    unfold CookieRun
    decide +kernel
  have plain : ∀ c ∈ cookiesOf setAgain, '=' ∉ c.name.toList := by
    decide
  obtain ⟨_, _, order, _, _, last⟩ :=
    last_cookie_call_wins start setAgain genuine proper cookies none
  refine ⟨genuine, proper, cookies, none, plain, ?_, ?_, ?_⟩
  · refine (order "b=2" "a=1").mpr ⟨["a=1"], _, rfl, ?_, ?_⟩
    · decide +kernel
    · decide +kernel
  · rw [last plain]
    decide +kernel
  · rw [last plain]
    decide +kernel

end Draft

end Docroot
