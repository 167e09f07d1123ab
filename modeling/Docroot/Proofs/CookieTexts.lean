import Docroot.Proofs.Cookies
import Docroot.Proofs.HttpDates

/-!
What the text of a cookie tells.

The text of a cookie is its name and value, and behind them the attributes that are set, each behind
a semicolon. An attribute starts with its label, and no label is the beginning of another, so it can
be seen which attributes there are. Where the texts in a cookie hold no semicolon, and its name no
`=` either, the whole cookie can be told from its text, but for what is shorter than a second in the
time at which it expires.
-/

namespace Docroot

/-! ## Labelled values -/

/-- The values that are there, each behind its label. -/
def labelled (l : List (String × Option (List Char))) : List (List Char) :=
  l.filterMap fun a => a.2.map fun v => a.1.toList ++ v

/-- Nothing can start with both labels. -/
def Apart (a b : String) : Prop := ¬ a.toList <+: b.toList ∧ ¬ b.toList <+: a.toList

instance (a b : String) : Decidable (Apart a b) := by
  unfold Apart
  infer_instance

theorem Apart.ne {a b : String} (apart : Apart a b) (v w : List Char) :
    a.toList ++ v ≠ b.toList ++ w := by
  intro same
  have first : a.toList <+: b.toList ++ w := same ▸ List.prefix_append _ _
  rcases List.prefix_or_prefix_of_prefix first (List.prefix_append b.toList w) with inner | inner
  · exact apart.1 inner
  · exact apart.2 inner

/-- A value stands before the others, unless it is not there. -/
theorem labelled_head {a : String} {l : List (String × Option (List Char))}
    (apart : ∀ b ∈ l.map Prod.fst, Apart a b) (v : List Char) : a.toList ++ v ∉ labelled l := by
  intro mem
  obtain ⟨⟨b, w⟩, there, eq⟩ := List.mem_filterMap.mp mem
  obtain ⟨w, rfl, eq⟩ := Option.map_eq_some_iff.mp eq
  exact (apart b (List.mem_map_of_mem there)).ne v w eq.symm

/-- Labels that are apart tell which values are there, and what they are. -/
theorem labelled_injective {l l' : List (String × Option (List Char))}
    (same : l.map Prod.fst = l'.map Prod.fst) (apart : (l.map Prod.fst).Pairwise Apart)
    (eq : labelled l = labelled l') : l = l' := by
  induction l generalizing l' with
  | nil => exact (List.map_eq_nil_iff.mp same.symm).symm
  | cons first rest ih =>
    obtain ⟨a, v⟩ := first
    cases l' with
    | nil => cases same
    | cons first' rest' =>
      obtain ⟨a', v'⟩ := first'
      obtain ⟨rfl, labels⟩ := List.cons.inj same
      obtain ⟨others, later⟩ := List.pairwise_cons.mp apart
      have others' : ∀ b ∈ rest'.map Prod.fst, Apart a b := labels ▸ others
      cases v with
      | none =>
        cases v' with
        | none => rw [ih labels later eq]
        | some w =>
          have mem : a.toList ++ w ∈ labelled rest := eq ▸ List.mem_cons_self
          exact absurd mem (labelled_head others w)
      | some w =>
        cases v' with
        | none =>
          have mem : a.toList ++ w ∈ labelled rest' := eq ▸ List.mem_cons_self
          exact absurd mem (labelled_head others' w)
        | some w' =>
          obtain ⟨head, tail⟩ := List.cons.inj eq
          rw [List.append_cancel_left head, ih labels later tail]

namespace Cookie

/-! ## The parts of a cookie's text -/

/-- The attributes of a cookie with their labels, in the order in which they are written. -/
def attributes (c : Cookie) : List (String × Option (List Char)) := [
  (" Expires=", c.expires.map fun t => t.httpDateChars),
  (" Max-Age=", c.maxAge.map fun n => (Decimal.ofInt n).toList),
  (" Domain=", c.domain.map String.toList), (" Path=", c.path.map String.toList),
  (" Secure", if c.secure then some [] else none),
  (" HttpOnly", if c.httpOnly then some [] else none),
  (" SameSite=", c.sameSite.map fun s => s.text.toList)]

theorem attributes_apart (c : Cookie) : (c.attributes.map Prod.fst).Pairwise Apart := by
  show [" Expires=", " Max-Age=", " Domain=", " Path=", " Secure", " HttpOnly",
    " SameSite="].Pairwise Apart
  decide

/-- What stands between the semicolons of a cookie's text. -/
def parts (c : Cookie) : List (List Char) :=
  (c.name.toList ++ '=' :: c.value.toList) :: labelled c.attributes

/-- A labelled value behind a semicolon. -/
def behind (label : String) (value : Option (List Char)) : List Char :=
  (value.map fun v => ';' :: label.toList ++ v).getD []

theorem valued_eq (label : String) (value : Option String) :
    (valued label value).toList = behind (" " ++ label ++ "=") (value.map String.toList) := by
  cases value <;> simp [valued, behind]

theorem flag_eq (label : String) (on : Bool) :
    (flag label on).toList = behind (" " ++ label) (if on then some [] else none) := by
  cases on <;> simp [flag, behind]

theorem flatMap_labelled (a : String) (v : Option (List Char))
    (l : List (String × Option (List Char))) :
    (labelled ((a, v) :: l)).flatMap (';' :: ·) =
      behind a v ++ (labelled l).flatMap (';' :: ·) := by
  cases v <;> simp [labelled, behind]

theorem text_eq (c : Cookie) : c.text.toList = [';'].intercalate c.parts := by
  have none : (labelled []).flatMap (';' :: ·) = [] := rfl
  rw [parts, intercalate_eq_flatMap, attributes]
  simp only [flatMap_labelled, none, text, String.toList_append, valued_eq, flag_eq,
    Option.map_map, Function.comp_def, Timestamp.httpDate, String.toList_ofList]
  simp

/-! ## Cookies that can be told by their texts -/

/-- No text in the cookie holds the mark behind which the next begins, and it expires at a time that
there is. -/
structure Unbroken (c : Cookie) : Prop where
  name : '=' ∉ c.name.toList ∧ ';' ∉ c.name.toList
  value : ';' ∉ c.value.toList
  domain : ∀ d ∈ c.domain, ';' ∉ d.toList
  path : ∀ p ∈ c.path, ';' ∉ p.toList
  expires : ∀ t ∈ c.expires, t.Representable

/-- The cookies are equal, but for what is shorter than a second in the times at which they
expire. -/
structure Same (c c' : Cookie) : Prop where
  name : c.name = c'.name
  value : c.value = c'.value
  expires : c.expires.map Timestamp.whole = c'.expires.map Timestamp.whole
  maxAge : c.maxAge = c'.maxAge
  domain : c.domain = c'.domain
  path : c.path = c'.path
  secure : c.secure = c'.secure
  httpOnly : c.httpOnly = c'.httpOnly
  sameSite : c.sameSite = c'.sameSite

instance (c c' : Cookie) : Decidable (c.Same c') :=
  decidable_of_iff (c.name = c'.name ∧ c.value = c'.value ∧
      c.expires.map Timestamp.whole = c'.expires.map Timestamp.whole ∧ c.maxAge = c'.maxAge ∧
      c.domain = c'.domain ∧ c.path = c'.path ∧ c.secure = c'.secure ∧
      c.httpOnly = c'.httpOnly ∧ c.sameSite = c'.sameSite)
    ⟨fun ⟨h₁, h₂, h₃, h₄, h₅, h₆, h₇, h₈, h₉⟩ => ⟨h₁, h₂, h₃, h₄, h₅, h₆, h₇, h₈, h₉⟩,
      fun h => ⟨h.1, h.2, h.3, h.4, h.5, h.6, h.7, h.8, h.9⟩⟩

variable {c c' : Cookie}

theorem semicolon_not_mem_labels (c : Cookie) :
    ∀ label ∈ c.attributes.map Prod.fst, ';' ∉ label.toList := by
  show ∀ label ∈ [" Expires=", " Max-Age=", " Domain=", " Path=", " Secure", " HttpOnly",
    " SameSite="], ';' ∉ label.toList
  decide

theorem semicolon_not_mem_values (unbroken : c.Unbroken) :
    ∀ value ∈ c.attributes.map Prod.snd, ∀ v ∈ value, ';' ∉ v := by
  have expires : ∀ v ∈ c.expires.map Timestamp.httpDateChars, ';' ∉ v := by
    refine Option.forall_mem_map.mpr ?_
    intro t _ here
    rcases Timestamp.mem_httpDateChars here with alphanum | mark
    · exact absurd alphanum (by decide)
    · exact absurd mark (by decide)
  have maxAge : ∀ v ∈ c.maxAge.map fun n => (Decimal.ofInt n).toList, ';' ∉ v := by
    refine Option.forall_mem_map.mpr ?_
    intro n _ here
    rcases Decimal.mem_ofInt here with digit | sign
    · exact absurd digit (by decide)
    · exact absurd sign (by decide)
  have domain : ∀ v ∈ c.domain.map String.toList, ';' ∉ v :=
    Option.forall_mem_map.mpr unbroken.domain
  have path : ∀ v ∈ c.path.map String.toList, ';' ∉ v := Option.forall_mem_map.mpr unbroken.path
  have flags (on : Bool) : ∀ v ∈ (if on then some [] else none : Option (List Char)), ';' ∉ v := by
    cases on <;> simp
  have sameSite : ∀ v ∈ c.sameSite.map fun s => s.text.toList, ';' ∉ v := by
    refine Option.forall_mem_map.mpr ?_
    intro s _
    cases s <;> decide
  show ∀ value ∈ [c.expires.map Timestamp.httpDateChars,
    c.maxAge.map fun n => (Decimal.ofInt n).toList, c.domain.map String.toList,
    c.path.map String.toList, if c.secure then some [] else none,
    if c.httpOnly then some [] else none, c.sameSite.map fun s => s.text.toList],
    ∀ v ∈ value, ';' ∉ v
  simp only [List.forall_mem_cons]
  exact ⟨expires, maxAge, domain, path, flags c.secure, flags c.httpOnly, sameSite,
    fun _ mem => nomatch mem⟩

theorem semicolon_not_mem_parts (unbroken : c.Unbroken) : ∀ part ∈ c.parts, ';' ∉ part := by
  intro part mem
  rcases List.mem_cons.mp mem with rfl | later
  · simp [unbroken.name.2, unbroken.value]
  · obtain ⟨⟨label, value⟩, there, eq⟩ := List.mem_filterMap.mp later
    obtain ⟨v, rfl, rfl⟩ := Option.map_eq_some_iff.mp eq
    have inLabel := c.semicolon_not_mem_labels label (List.mem_map_of_mem there)
    have inValue := semicolon_not_mem_values unbroken (some v) (List.mem_map_of_mem there) v rfl
    simp [inLabel, inValue]

/-- The text can be cut into its parts. -/
theorem splitOn_text (unbroken : c.Unbroken) : c.text.toList.splitOn ';' = c.parts := by
  rw [text_eq]
  exact List.splitOn_intercalate ';' (semicolon_not_mem_parts unbroken) (List.cons_ne_nil _ _)

/-! ## What can be told -/

theorem expires_eq_iff (unbroken : c.Unbroken) (unbroken' : c'.Unbroken) :
    c.expires.map Timestamp.httpDate = c'.expires.map Timestamp.httpDate ↔
      c.expires.map Timestamp.whole = c'.expires.map Timestamp.whole := by
  cases there : c.expires with
  | none => cases c'.expires <;> simp
  | some t =>
    cases there' : c'.expires with
    | none => simp
    | some u =>
      have placed := (unbroken.expires t there).placed
      have placed' := (unbroken'.expires u there').placed
      simpa using Timestamp.httpDate_eq_iff placed placed'

theorem ofInt_injective {n m : Int} (same : (Decimal.ofInt n).toList = (Decimal.ofInt m).toList) :
    n = m := by
  have read := Decimal.integer?_ofInt n
  rw [same, Decimal.integer?_ofInt m] at read
  exact (Option.some.inj read).symm

theorem same_of_attributes (unbroken : c.Unbroken) (unbroken' : c'.Unbroken)
    (name : c.name = c'.name) (value : c.value = c'.value) (same : c.attributes = c'.attributes) :
    c.Same c' := by
  have texts : Function.Injective String.toList := fun _ _ => String.toList_inj.mp
  have flags : Function.Injective
      fun on : Bool => (if on then some [] else none : Option (List Char)) := by decide
  have sites : Function.Injective fun s : SameSite => s.text.toList := by
    intro s s' eq
    cases s <;> cases s' <;> first | rfl | exact absurd eq (by decide)
  simp only [attributes, List.cons.injEq, Prod.mk.injEq, true_and, and_true] at same
  obtain ⟨expires, maxAge, domain, path, secure, httpOnly, sameSite⟩ := same
  have dates : c.expires.map Timestamp.httpDate = c'.expires.map Timestamp.httpDate := by
    have dates := congrArg (Option.map String.ofList) expires
    rwa [Option.map_map, Option.map_map] at dates
  exact {
    name, value
    expires := (expires_eq_iff unbroken unbroken').mp dates
    maxAge := Option.map_injective (fun _ _ => ofInt_injective) maxAge
    domain := Option.map_injective texts domain
    path := Option.map_injective texts path
    secure := flags secure
    httpOnly := flags httpOnly
    sameSite := Option.map_injective sites sameSite }

theorem text_eq_iff (unbroken : c.Unbroken) (unbroken' : c'.Unbroken) :
    c.text = c'.text ↔ c.Same c' := by
  constructor
  · intro same
    have parts : c.parts = c'.parts := by
      rw [← splitOn_text unbroken, ← splitOn_text unbroken', same]
    obtain ⟨first, rest⟩ := List.cons.inj parts
    have name : c.name = c'.name := by
      rw [← nameIn_text unbroken.name.1, ← nameIn_text unbroken'.name.1, same]
    rw [name] at first
    have value := (List.cons.inj (List.append_cancel_left first)).2
    have attributes : c.attributes = c'.attributes :=
      labelled_injective rfl c.attributes_apart rest
    exact same_of_attributes unbroken unbroken' name (String.toList_inj.mp value) attributes
  · intro same
    have dates := (expires_eq_iff unbroken unbroken').mpr same.expires
    rw [text, text, dates, same.name, same.value, same.maxAge, same.domain, same.path, same.secure,
      same.httpOnly, same.sameSite]

/-- **Cookies are told apart by their texts.** Of cookies whose name holds neither `=` nor `;`, and
whose other texts hold no `;`, two have the same text exactly if they are equal, where the times at
which they expire need only lie in the same second. So a cookie call takes away no other cookie:
whatever else is in the header, the text of another one is there as often as before, and where the
values are the texts of cookies that were sent, those that remain are the others, in their order,
with the new one behind them. -/
theorem texts_tell_cookies (c : Cookie) (unbroken : c.Unbroken) :
    (∀ c' : Cookie, c'.Unbroken → (c.text = c'.text ↔ c.Same c')) ∧
    ∀ h : Header, let kept := (h.setCookie c).values (h.standard .setCookie)
      (∀ c' : Cookie, c'.Unbroken → ¬ c.Same c' →
        kept.count c'.text = (h.values (h.standard .setCookie)).count c'.text) ∧
      ∀ sent : List Cookie, (∀ c' ∈ sent, c'.Unbroken) →
        h.values (h.standard .setCookie) = sent.map text →
          kept = ((sent.filter fun c' => ¬ c.Same c') ++ [c]).map text := by
  refine ⟨fun c' => text_eq_iff unbroken, ?_⟩
  intro h kept
  have left : kept = (h.values (h.standard .setCookie)).filter (fun v => v ≠ c.text) ++ [c.text] :=
    h.values_setCookie c
  constructor
  · intro c' unbroken' differ
    have other : c'.text ≠ c.text :=
      fun same => differ ((text_eq_iff unbroken unbroken').mp same.symm)
    rw [left, List.count_append, List.count_filter (by simpa using other)]
    simp [other.symm]
  · intro sent all values
    have others : (sent.filter fun c' => decide (c'.text ≠ c.text)) =
        sent.filter fun c' => ¬ c.Same c' := by
      refine List.filter_congr ?_
      intro c' mem
      have same := text_eq_iff unbroken (all c' mem)
      simp [← same, eq_comm]
    rw [left, values, List.filter_map, ← others]
    simp [Function.comp_def]

/-- A cookie that expires in the leap second before the year 0. -/
def leaping : Cookie := { name := "a", value := "b=1", expires := some ⟨-62167219201, 1500000000⟩ }

/-- A cookie that expires in the second before. -/
def earlier : Cookie := { leaping with expires := some ⟨-62167219201, 999999999⟩ }

/-- A header with both of them. -/
def both : Header := ((Header.ok 0).setCookie leaping).setCookie earlier

/-- The cookies stay apart, and the first of them is sent again. -/
theorem leap_cookie_resent :
    leaping.Unbroken ∧ earlier.Unbroken ∧ leaping.text ≠ earlier.text ∧
      (both.setCookie leaping).values (both.standard .setCookie) =
        [earlier.text, leaping.text] := by
  have unbroken : leaping.Unbroken := {
    name := by decide, value := by decide, domain := nofun, path := nofun
    expires := by
      intro t mem
      obtain rfl := Option.some.inj mem
      decide }
  have unbroken' : earlier.Unbroken := {
    unbroken with
    expires := by
      intro t mem
      obtain rfl := Option.some.inj mem
      decide }
  have before : both.values (both.standard .setCookie) = [leaping, earlier].map text := by
    decide +kernel
  have rest : ([leaping, earlier].filter fun c' => ¬ leaping.Same c') ++ [leaping] =
      [earlier, leaping] := by decide
  obtain ⟨told, others⟩ := texts_tell_cookies leaping unbroken
  refine ⟨unbroken, unbroken', ?_, ?_⟩
  · intro same
    exact absurd ((told earlier unbroken').mp same) (by decide)
  · rw [(others both).2 [leaping, earlier] ?_ before, rest]
    · rfl
    · intro sent mem
      rcases List.mem_pair.mp mem with rfl | rfl
      · exact unbroken
      · exact unbroken'

end Cookie

end Docroot
