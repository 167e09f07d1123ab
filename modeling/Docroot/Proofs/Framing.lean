import Docroot.Proofs.Caching
import Docroot.Proofs.Entries
import Docroot.Proofs.Readers

/-!
The length that a response tells and the bytes that it delivers.

A file is served with its type and its length behind all other entries of the header, and the length
is that of the body, whether it is read from the response or from a snapshot of it. Where there is
no file the body is empty, and the header says so in its status.
-/

namespace Docroot

open Utf8 (Bytes)

/-- What a response delivers: its own stream gives the body, and it can be frozen by any server, and
then every stream of every snapshot gives the body, in as many reads as one likes. -/
structure Response.Delivers (r : Response) (body : Bytes) : Prop where
  length : r.stream.length? = some body.length
  stream : r.stream.readAll.1 = body
  frozen : ∀ s : Server, ∃ x t, s.freeze (.fresh r) = (.ok x, t) ∧ x.header = r.header ∧
    ∀ uses q, (Readers.of t x).run uses = some q → ∀ i k, q.streams[i]? = some k →
      Reading.bytesOf i q.reads ++ k.readAll.1 = body

/-- A response that was not read yet delivers its whole buffer. -/
theorem Response.delivers_new {r : Response} {body : Bytes} (new : r.stream = .known (.new body)) :
    r.Delivers body where
  length := by
    rw [new]
    rfl
  stream := by
    rw [new]
    exact (KnownStream.Past.new body).readAll
  frozen := by
    intro s
    obtain ⟨x, t, frozen, captures⟩ := s.freeze_known new
    have whole : x.body = body := captures.body
    refine ⟨x, t, frozen, captures.header, ?_⟩
    intro uses q ran i k opened
    rw [← whole]
    exact ((Readers.sound_of t x).run ran).whole opened

namespace Header

/-- The names under which a file is described. -/
def describing (h : Header) : List HeaderName :=
  [h.standard .contentType, h.standard .contentLength]

variable (h : Header) (type : String) (isText : Bool) (body : Bytes)

theorem described_apart :
    (h.standard .contentType).agrees (h.standard .contentLength) = false := by
  rw [← Bool.not_eq_true, standard, standard, HeaderName.standard_agrees_iff]
  decide

/-- The header of a file: its type and its length stand last, and are the only entries of their
names. -/
theorem entries_ofContent :
    (Response.ofContent h type isText body).header.entries = h.apart h.describing ++
      [(h.standard .contentType, type), (h.standard .contentLength, toString body.length)] :=
  entries_set_set h.described_apart

theorem values_ofContent :
    (Response.ofContent h type isText body).header.values (h.standard .contentType) = [type] ∧
    (Response.ofContent h type isText body).header.values (h.standard .contentLength) =
      [toString body.length] := by
  constructor
  · exact (values_set_other h.described_apart).trans (values_set _ _ _)
  · exact values_set _ _ _

theorem apart_ofContent :
    (Response.ofContent h type isText body).header.apart h.describing = h.apart h.describing := by
  have second : h.standard .contentLength ∈ h.describing :=
    List.mem_cons_of_mem _ List.mem_cons_self
  exact (apart_set second).trans (apart_set List.mem_cons_self)

end Header

namespace Server

section

variable [MediaTypes]

/-- A path that is missing, and a folder, are answered without looking at the disk. -/
theorem respond_missing {s : Server} {p : Nat} (h : Header)
    (none : (s.node p).present = false ∨ (s.node p).isFolder = true) :
    s.respond p h = (.ok (.missing h), s) := by
  rw [respond_eq, if_pos]
  rcases none with missing | folder
  · simp [missing]
  · simp [folder]

/-- A file is answered with its content, which is its text if its type says so. -/
theorem respond_file {s t : Server} {p : Nat} {h : Header} {r : Response}
    (present : (s.node p).present = true) (file : (s.node p).isFolder = false)
    (done : s.respond p h = (.ok r, t)) :
    let type := MediaType.contentType (s.node p).extension
    ∃ body, r = .ofContent h type.1 type.2 body ∧
      if type.2 then ∃ text, s.readText p = (.ok text, t) ∧ body = Utf8.ofText text
      else s.readBytes p = (.ok body, t) := by
  have there : ¬ (!(s.node p).present || (s.node p).isFolder) = true := by
    simp [present, file]
  rw [respond_eq, if_neg there] at done
  generalize MediaType.contentType (s.node p).extension = type at done ⊢
  dsimp only at done ⊢
  by_cases isText : type.2 = true
  · rw [if_pos isText] at done
    obtain ⟨answer, rfl⟩ := Prod.mk.inj done
    cases read : (s.readText p).1 with
    | error e =>
      rw [read] at answer
      cases answer
    | ok text =>
      rw [read] at answer
      refine ⟨Utf8.ofText text, (Except.ok.inj answer).symm, ?_⟩
      rw [if_pos isText]
      exact ⟨text, Prod.ext read rfl, rfl⟩
  · rw [if_neg isText] at done
    obtain ⟨answer, rfl⟩ := Prod.mk.inj done
    cases read : (s.readBytes p).1 with
    | error e =>
      rw [read] at answer
      cases answer
    | ok body =>
      rw [read] at answer
      refine ⟨body, (Except.ok.inj answer).symm, ?_⟩
      rw [if_neg isText]
      exact Prod.ext read rfl

/-- **The length that is told is that of the body.** Whatever the server is like, and whatever the
header holds before: where a path that is a file and is there is answered with a response, this
delivers the text of the file or its bytes, as the type of its extension says. The header tells the
type and the length of just this body, in the last two entries and nowhere else, and has its status,
its version and all other entries as before. A path that is missing, and a folder, are answered with
an empty body and the status `404 Not Found`, which is the one entry of its name, and all other
entries are as before. -/
theorem served_length_matches_body (s : Server) (p : Nat) (h : Header) :
    let type := MediaType.contentType (s.node p).extension
    ((s.node p).present = true → (s.node p).isFolder = false →
      ∀ r t, s.respond p h = (.ok r, t) → ∃ body,
        (if type.2 then ∃ text, s.readText p = (.ok text, t) ∧ body = Utf8.ofText text
          else s.readBytes p = (.ok body, t)) ∧
        r.isText = type.2 ∧ r.Delivers body ∧
        r.header.status = h.status ∧ r.header.format = h.format ∧
        r.header.entries = h.apart h.describing ++ [(h.standard .contentType, type.1),
          (h.standard .contentLength, toString body.length)] ∧
        r.header.values (h.standard .contentType) = [type.1] ∧
        r.header.values (h.standard .contentLength) = [toString body.length] ∧
        r.header.apart h.describing = h.apart h.describing) ∧
    ((s.node p).present = false ∨ (s.node p).isFolder = true →
      ∃ r, s.respond p h = (.ok r, s) ∧ r.Delivers [] ∧
        r.header.status = "404 Not Found" ∧ r.header.format = h.format ∧
        r.header.values (h.standard .status) = ["404 Not Found"] ∧
        r.header.apart [h.standard .status] = h.apart [h.standard .status]) := by
  intro type
  have whole (present : (s.node p).present = true) (file : (s.node p).isFolder = false)
      (r : Response) (t : Server) (done : s.respond p h = (.ok r, t)) : ∃ body,
      r = .ofContent h type.1 type.2 body ∧
      if type.2 then ∃ text, s.readText p = (.ok text, t) ∧ body = Utf8.ofText text
      else s.readBytes p = (.ok body, t) := respond_file present file done
  clear_value type
  constructor
  · intro present file r t done
    obtain ⟨body, rfl, content⟩ := whole present file r t done
    obtain ⟨typed, sized⟩ := h.values_ofContent type.1 type.2 body
    exact ⟨body, content, rfl, Response.delivers_new rfl, rfl, rfl,
      h.entries_ofContent type.1 type.2 body, typed, sized, h.apart_ofContent type.1 type.2 body⟩
  · intro none
    refine ⟨.missing h, respond_missing h none, Response.delivers_new rfl, rfl, rfl, ?_, ?_⟩
    · exact Header.values_set _ _ _
    · exact Header.apart_set List.mem_cons_self

end

/-- A header with a length from elsewhere, under a name of another registry. -/
def strayLength : Header :=
  { Header.ok 0 with entries := [(.standard 7 .contentLength, "99"), (.standard 0 .eTag, "v1")] }

attribute [local instance] MediaTypes.familiar

/-- The file `x.txt` is served with the length of its text, which ends with a line end. -/
theorem text_served : ∃ s r t,
    (start textDisk).run [.mount "/" none {}, .root 0, .resolve 0 0 "x.txt"] = some s ∧
    (s.node 1).present = true ∧ (s.node 1).isFolder = false ∧
    s.respond 1 strayLength = (.ok r, t) ∧ r.Delivers (Utf8.ofText "hi\n") ∧
    r.header.entries = [(.standard 0 .eTag, "v1"),
      (.standard 0 .contentType, "text/plain; charset=utf-8"),
      (.standard 0 .contentLength, "3")] := by
  obtain ⟨s, ran, disk, _, caches, ofCache, made⟩ := resolve_textDisk
  have present : (s.node 1).present = true := by rw [made]
  have file : (s.node 1).isFolder = false := by rw [made]
  have missed : (s.askCache (s.node 1)).1 = none := by
    simp only [askCache, cache, made, ofCache, caches]
    rfl
  have text : textOnDisk textDisk.1 (Utf8.ofText "/x.txt") = .ok "hi\n" := by
    cbv
  have read : (s.readText 1).1 = .ok "hi\n" := by
    rw [readText_missed missed]
    simp only [made, disk, text]
    rfl
  have type : MediaType.contentType (s.node 1).extension = ("text/plain; charset=utf-8", true) := by
    rw [made]
    decide +kernel
  have done : s.respond 1 strayLength =
      (.ok (.ofContent strayLength "text/plain; charset=utf-8" true (Utf8.ofText "hi\n")),
        (s.readText 1).2) := by
    rw [respond_eq, type, read, present, file]
    rfl
  have served := (served_length_matches_body s 1 strayLength).1 present file _ _ done
  rw [type] at served
  obtain ⟨body, ⟨text', same, rfl⟩, _, delivers, _, _, entries, _⟩ := served
  have content : "hi\n" = text' := Except.ok.inj (read.symm.trans (congrArg Prod.fst same))
  subst content
  refine ⟨s, _, _, ran, present, file, done, delivers, ?_⟩
  rw [entries]
  decide +kernel

end Server

end Docroot
