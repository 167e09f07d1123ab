import Mathlib
import Docroot.Proofs.Classification

/-!
The order of listings.

An entry is put into a listing where its key belongs, so a listing that is made is in the order of
the keys; and UTF-8 keeps the order of texts, so this is the order of their bytes. A listing is kept
as it was made, and its paths keep their keys. So every listing of a reachable server is in order:
`Ranked` is shown for an effect and for a listing, and then holds after all calls.
-/

namespace Docroot

namespace Utf8

/-! ## The order of bytes -/

theorem cons_lt_of_toNat {m n : Nat} (fits : n < 256) (less : m < n) (xs ys : Bytes) :
    UInt8.ofNat m :: xs < UInt8.ofNat n :: ys := by
  rw [List.cons_lt_cons_iff, UInt8.lt_iff_toNat_lt, UInt8.toNat_ofNat', UInt8.toNat_ofNat']
  left
  omega

/-- The next byte decides if it differs, and otherwise those behind it do. -/
theorem cons_lt_of_le {m n : Nat} (fits : n < 256) (le : m ≤ n) {xs ys : Bytes}
    (behind : m = n → xs < ys) : UInt8.ofNat m :: xs < UInt8.ofNat n :: ys := by
  rcases Nat.lt_or_eq_of_le le with less | rfl
  · exact cons_lt_of_toNat fits less xs ys
  · exact List.cons_lt_cons_iff.mpr (.inr ⟨rfl, behind rfl⟩)

/-- What stands behind two characters does not matter to their order. -/
theorem encodeChar_lt {c d : Char} (less : c < d) (xs ys : Bytes) :
    String.utf8EncodeChar c ++ xs < String.utf8EncodeChar d ++ ys := by
  have bound := toNat_val_lt d
  have less : c.val.toNat < d.val.toNat := less
  unfold String.utf8EncodeChar
  generalize c.val.toNat = v at less
  generalize d.val.toNat = w at less bound
  simp only
  -- A character with fewer bytes has the lesser first byte. Between two with as many bytes, the
  -- first byte that differs decides.
  split
  · split
    · exact cons_lt_of_toNat (by omega) (by omega) _ _
    · split
      · exact cons_lt_of_toNat (by omega) (by omega) _ _
      · split <;> exact cons_lt_of_toNat (by omega) (by omega) _ _
  · rw [if_neg (show ¬ w ≤ 0x7f by omega)]
    split
    · split
      · refine cons_lt_of_le (by omega) (by omega) fun _ => ?_
        exact cons_lt_of_toNat (by omega) (by omega) _ _
      · split <;> exact cons_lt_of_toNat (by omega) (by omega) _ _
    · rw [if_neg (show ¬ w ≤ 0x7ff by omega)]
      split
      · split
        · refine cons_lt_of_le (by omega) (by omega) fun _ => ?_
          refine cons_lt_of_le (by omega) (by omega) fun _ => ?_
          exact cons_lt_of_toNat (by omega) (by omega) _ _
        · exact cons_lt_of_toNat (by omega) (by omega) _ _
      · rw [if_neg (show ¬ w ≤ 0xffff by omega)]
        refine cons_lt_of_le (by omega) (by omega) fun _ => ?_
        refine cons_lt_of_le (by omega) (by omega) fun _ => ?_
        refine cons_lt_of_le (by omega) (by omega) fun _ => ?_
        exact cons_lt_of_toNat (by omega) (by omega) _ _

theorem encode_lt {cs ds : List Char} (less : cs < ds) : encode cs < encode ds := by
  induction cs generalizing ds with
  | nil =>
    cases ds with
    | nil => exact absurd less (List.lt_irrefl _)
    | cons d ds =>
      obtain ⟨b, bs, first⟩ :=
        List.exists_cons_of_ne_nil (l := encode (d :: ds)) (by simp [encode])
      rw [first]
      exact List.nil_lt_cons b bs
  | cons c cs ih =>
    cases ds with
    | nil => exact absurd less (List.not_lt_nil _)
    | cons d ds =>
      rcases List.cons_lt_cons_iff.mp less with first | ⟨rfl, behind⟩
      · exact encodeChar_lt first _ _
      · exact List.append_left_lt (ih behind)

/-- Texts are in the order of their bytes. -/
theorem ofText_lt_iff {a b : String} : ofText a < ofText b ↔ a < b := by
  constructor
  · intro less
    rcases lt_trichotomy a b with order | rfl | order
    · exact order
    · exact absurd less (List.lt_irrefl _)
    · exact absurd less (List.lt_asymm (encode_lt order))
  · exact fun less => encode_lt less

end Utf8

namespace Server

variable {s t : Server} {P : Effect → Prop} {v p : Nat}

/-! ## Listings in the making -/

/-- Paths in strictly increasing order of the bytes of their keys. -/
def Ascending (s : Server) (l : List Nat) : Prop :=
  l.Pairwise fun p q => Utf8.ofText (s.node p).key < Utf8.ofText (s.node q).key

theorem enlist_ascending {key : String} {l : List (String × Nat)}
    (ascending : l.Pairwise fun x y => x.1 < y.1) :
    (enlist key p l).Pairwise fun x y => x.1 < y.1 := by
  induction l with
  | nil => exact List.pairwise_singleton _ _
  | cons x rest ih =>
    obtain ⟨k, q⟩ := x
    obtain ⟨first, behind⟩ := List.pairwise_cons.mp ascending
    simp only [enlist]
    split
    · rename_i before
      refine List.pairwise_cons.mpr ⟨fun y mem => ?_, ascending⟩
      rcases List.mem_cons.mp mem with rfl | later
      · exact before
      · exact lt_trans before (first y later)
    · rename_i notBefore
      split
      · rename_i same
        subst same
        exact List.pairwise_cons.mpr ⟨first, behind⟩
      · rename_i other
        refine List.pairwise_cons.mpr ⟨fun y mem => ?_, ih behind⟩
        rcases mem_enlist mem with rfl | old
        · exact lt_of_le_of_ne (le_of_not_gt notBefore) (Ne.symm other)
        · exact first y old

theorem enlistEntries_ascending {n : PathNode} {names : List Name} {l : List (String × Nat)}
    (ascending : l.Pairwise fun x y => x.1 < y.1) :
    (names.foldl (enlistEntry n) (l, s)).1.Pairwise fun x y => x.1 < y.1 := by
  induction names generalizing s l with
  | nil => exact ascending
  | cons name rest ih => exact ih (enlist_ascending ascending)

/-- A listing that is made is in order. -/
theorem makeListing_ascending (sound : s.Sound) (n : PathNode) :
    (s.makeListing n).2.Ascending (s.makeListing n).1 := by
  rcases makeListing_cases s n with
    none | ⟨e, failed⟩ | ⟨names, folder, present, alive, known, listed⟩
  · rw [none]
    exact .nil
  · rw [failed]
    exact .nil
  · have nothing : s.Kept n.system [] := fun _ mem => absurd mem List.not_mem_nil
    obtain ⟨kept, _, _⟩ := @enlistEntries_kept s n names [] sound known nothing
    have ordered := @enlistEntries_ascending s n names [] .nil
    obtain ⟨goes, _⟩ := enlistEntries_goes (l := []) known folder listed (fun _ => id)
      (fun x mem => absurd mem List.not_mem_nil)
    have soundThen := sound.goes goes
    rw [makeListing_eq folder present alive listed]
    generalize names.foldl (enlistEntry n) ([], s) = made at kept ordered soundThen ⊢
    refine List.pairwise_map.mpr (ordered.imp_of_mem fun {x y} memX memY less => ?_)
    -- The paths are registered under the keys that they stand at, which are their own.
    obtain ⟨_, _, keyX⟩ := soundThen.registered _ _ _ (kept x memX)
    obtain ⟨_, _, keyY⟩ := soundThen.registered _ _ _ (kept y memY)
    rw [node_report, node_report, keyX, keyY]
    exact Utf8.ofText_lt_iff.mpr less

/-! ## Listings that are kept -/

/-- Every listing is in order. -/
def Ranked (s : Server) : Prop := ∀ p l, (s.node p).listing = some l → s.Ascending l

theorem Ascending.apply {e : Effect} {l : List Nat} (ascending : s.Ascending l)
    (lawful : e.Lawful s) (known : ∀ q ∈ l, q < s.nodes.size) : (e.apply s).Ascending l := by
  refine List.Pairwise.imp_of_mem (fun {q r} memQ memR less => ?_) ascending
  rw [(Effect.node_became lawful (known q memQ)).key,
    (Effect.node_became lawful (known r memR)).key]
  exact less

/-- An effect keeps all listings in order, provided that it keeps none that is not. -/
theorem Ranked.apply (ranked : s.Ranked) (sound : s.Sound) {e : Effect} (lawful : e.Lawful s)
    (ordered : ∀ p l, e = .keep p l → s.Ascending l) : (e.apply s).Ranked := by
  intro p l listed
  have old (before : (s.node p).listing = some l) : (e.apply s).Ascending l :=
    (ranked p l before).apply lawful fun q mem => (sound.listed p l q before mem).1
  by_cases kind : ∀ p l, e ≠ .keep p l
  · exact old (listed_before kind listed).2
  · obtain ⟨r, made, rfl⟩ : ∃ r made, e = .keep r made := by
      simpa using kind
    rcases node_keep (s := s) r made p with ⟨rfl, known, now⟩ | same
    · rw [now] at listed
      cases listed
      refine (ordered _ _ rfl).apply lawful fun q mem => ?_
      obtain ⟨_, _, _, _, _, there⟩ := lawful.2 q mem
      exact (sound.registered _ _ _ there).1
    · rw [same] at listed
      exact old listed

theorem Ranked.goes (ranked : s.Ranked) (sound : s.Sound) (h : Goes P s t)
    (quiet : ∀ p l, ¬ P (.keep p l)) : t.Ranked := by
  have both : t.Sound ∧ t.Ranked := by
    refine h.keeps (I := fun t => t.Sound ∧ t.Ranked) ?_ ⟨sound, ranked⟩
    rintro t e kind lawful ⟨sound, ranked⟩
    refine ⟨sound.apply lawful, ranked.apply sound lawful fun p l same => ?_⟩
    subst same
    exact absurd kind (quiet p l)
  exact both.2

theorem listing_ranked (ranked : s.Ranked) (sound : s.Sound) (p : Nat) :
    (s.listing p).2.Ranked := by
  simp only [listing]
  split
  · exact ranked
  · rename_i new
    obtain ⟨goes, all⟩ := makeListing_goes s (s.node p)
    have ordered := makeListing_ascending sound (s.node p)
    have same := node_makeListing s p
    have rankedThen := ranked.goes sound goes fun _ _ => id
    have soundThen := sound.goes goes
    generalize s.makeListing (s.node p) = made at all ordered same rankedThen soundThen ⊢
    have kept := rankedThen.apply soundThen (e := .keep p made.1)
      ⟨by rw [same]; exact new, by rw [same]; exact all⟩ (by rintro _ _ ⟨⟩; exact ordered)
    simpa only [Effect.apply, same] using kept

/-- Whatever is called, the listings stay in order. -/
theorem Ranked.scans (ranked : s.Ranked) (sound : s.Sound) (h : Scans P s t) :
    t.Sound ∧ t.Ranked := by
  induction h with
  | stay => exact ⟨sound, ranked⟩
  | step e _ _ quiet lawful ih =>
    obtain ⟨soundThen, rankedThen⟩ := ih
    refine ⟨soundThen.apply lawful, rankedThen.apply soundThen lawful ?_⟩
    intro p l keeps
    exact absurd keeps (quiet p l)
  | list p _ _ ih =>
    obtain ⟨soundThen, rankedThen⟩ := ih
    exact ⟨soundThen.goes (listing_goes _ p), listing_ranked rankedThen soundThen p⟩

theorem start_ranked (d : Tree) : (start d).Ranked := by
  intro p l listed
  rw [node_beyond _ (Nat.zero_le p)] at listed
  cases listed

theorem Reachable.ranked [MediaTypes] (reach : Reachable s) : s.Ranked := by
  obtain ⟨d, calls, ran⟩ := reach
  exact ((start_ranked d).scans (start_sound d) (run_scans_any ran)).2

/-- Whenever a path is listed, now or before, the listing is in order. -/
theorem listing_ascending [MediaTypes] (reach : Reachable s) (known : p < s.nodes.size) :
    (s.listing p).2.Ascending (s.listing p).1 :=
  listing_ranked reach.ranked reach.sound p p _ (listing_node known)

end Server

end Docroot
