import Mathlib.Data.List.Induction
import Switchboard.Proofs.Dictionary
import Switchboard.Proofs.Http.Headers
import Switchboard.Proofs.Text.Lossy

/-!
# What is seen of the headers that were received

A response may have several headers of one name, with other names between them and in any
case.  The caller sees each name once, in lower case, with the texts of all its values in the
order in which they came.

## Main definitions

* `valuesOf` — the values of the headers of a name.
* `KeepsValues` — the headers listed in another order, as a map of headers may list them.
* `Shows` — what a caller sees of the headers.

## Main results

* `get?_receivedHeaders` — what is found under a name.
* `entries_receivedHeaders` — no value is lost, and none is there twice.
* `receivedHeaders_shows` — **a caller sees all headers that were received.**
-/

namespace Switchboard.Http

open Text.Ascii (lower SameLetters)
open Text.Utf8 (decodeLossy)
open scoped List

/-! ### What is received -/

/-- The values of the headers of a name, whatever its case, in the order of the headers. -/
def valuesOf (name : String) (headers : List (String × Bytes)) : List Bytes :=
  (headers.filter fun h => SameLetters h.1 name).map Prod.snd

/-- The headers are listed in an order that keeps the one of the values of each name. -/
def KeepsValues (received listed : List (String × Bytes)) : Prop :=
  ∀ name, valuesOf name listed = valuesOf name received

/-- A single header as it is shown. -/
def shown (h : String × Bytes) : String × String := (lower h.1, decodeLossy h.2)

/-- The single headers of a map. -/
def entries (seen : HeaderMap) : List (String × String) :=
  seen.flatMap fun e => e.2.map fun value => (e.1, value)

/-- What a caller sees is what was received. -/
structure Shows (seen : HeaderMap) (received : List (String × Bytes)) : Prop where
  /-- No name stands twice. -/
  ordered : seen.Ordered
  /-- The names are those that were received, in lower case. -/
  names : ∀ name, Dictionary.contains name seen = true ↔
    lower name = name ∧ ∃ h ∈ received, SameLetters h.1 name
  /-- Under a name stand the texts of all its values, in the order in which they came. -/
  values : ∀ h ∈ received, Dictionary.get? (lower h.1) seen
    = some ((valuesOf h.1 received).map decodeLossy)
  /-- Each text is the one that the rule for broken bytes makes of its bytes. -/
  texts : ∀ h ∈ received, ∀ cs, Text.Utf8.ReadsLossily h.2 cs ↔ (decodeLossy h.2).toList = cs
  /-- In all there are as many headers as were received, and the same ones. -/
  all : (entries seen).Perm (received.map shown)

theorem sameLetters_lower (name : String) : SameLetters name (lower name) :=
  Text.Ascii.sameLetters_iff.mpr (Text.Ascii.lower_lower name).symm

theorem valuesOf_congr {a b : String} (h : SameLetters a b) (headers : List (String × Bytes)) :
    valuesOf a headers = valuesOf b headers := by
  have hsame : ∀ c, SameLetters c a ↔ SameLetters c b := by
    intro c
    constructor
    · intro hc
      exact hc.trans h
    · intro hc
      exact hc.trans h.symm
  simp only [valuesOf, hsame]

theorem valuesOf_snoc (name : String) (headers : List (String × Bytes)) (h : String × Bytes) :
    valuesOf name (headers ++ [h])
      = valuesOf name headers ++ if SameLetters h.1 name then [h.2] else [] := by
  rw [valuesOf, List.filter_append, List.map_append, valuesOf]
  by_cases hsame : SameLetters h.1 name <;> simp [hsame]

theorem valuesOf_ne_nil_iff {name : String} {headers : List (String × Bytes)} :
    valuesOf name headers ≠ [] ↔ ∃ h ∈ headers, SameLetters h.1 name := by
  rw [valuesOf, Ne, List.map_eq_nil_iff, List.filter_eq_nil_iff]
  push Not
  simp only [decide_eq_true_eq]

/-- An order keeps the values of every name if it keeps those of the names that occur. -/
theorem keepsValues_iff {received listed : List (String × Bytes)} :
    KeepsValues received listed ↔
      ∀ h ∈ received ++ listed, valuesOf h.1 listed = valuesOf h.1 received := by
  constructor
  · intro hkeeps h _
    exact hkeeps h.1
  · intro hkeeps name
    by_cases hoccurs : ∃ h ∈ received ++ listed, SameLetters h.1 name
    · obtain ⟨h, hmem, hsame⟩ := hoccurs
      rw [← valuesOf_congr hsame, ← valuesOf_congr hsame, hkeeps h hmem]
    · -- neither has a value under a name that does not occur
      have hnone : ∀ headers, headers ⊆ received ++ listed → valuesOf name headers = [] := by
        intro headers hsub
        by_contra hne
        obtain ⟨h, hmem, hsame⟩ := valuesOf_ne_nil_iff.mp hne
        exact hoccurs ⟨h, hsub hmem, hsame⟩
      rw [hnone listed (List.subset_append_right _ _),
        hnone received (List.subset_append_left _ _)]

instance (received listed : List (String × Bytes)) : Decidable (KeepsValues received listed) :=
  decidable_of_iff _ keepsValues_iff.symm

/-! ### What is seen -/

theorem receivedHeaders_snoc (headers : List (String × Bytes)) (h : String × Bytes) :
    receivedHeaders (headers ++ [h]) = Dictionary.insert (lower h.1)
      ((Dictionary.get? (lower h.1) (receivedHeaders headers)).getD [] ++ [decodeLossy h.2])
      (receivedHeaders headers) := by
  rw [receivedHeaders, List.foldl_concat]
  rfl

theorem ordered_receivedHeaders (headers : List (String × Bytes)) :
    (receivedHeaders headers).Ordered := by
  induction headers using List.reverseRecOn with
  | nil => exact Dictionary.ordered_nil
  | append_singleton headers h ih =>
    rw [receivedHeaders_snoc]
    exact ih.insert _ _

/-- Under a name in lower case the texts of its values are found, and nothing under any other
name. -/
theorem get?_receivedHeaders (headers : List (String × Bytes)) (name : String) :
    Dictionary.get? name (receivedHeaders headers)
      = if lower name = name ∧ valuesOf name headers ≠ []
        then some ((valuesOf name headers).map decodeLossy) else none := by
  induction headers using List.reverseRecOn generalizing name with
  | nil => simp [valuesOf]
  | append_singleton headers h ih =>
    rw [receivedHeaders_snoc, Dictionary.get?_insert, valuesOf_snoc]
    by_cases hname : name = lower h.1
    · -- what was found before, and the value of the header that is added
      have hlower : lower name = name := by rw [hname, Text.Ascii.lower_lower]
      have hsame : SameLetters h.1 name := hname ▸ sameLetters_lower h.1
      rw [if_pos hname, ← hname, ih name, if_pos hsame]
      by_cases hnil : valuesOf name headers = [] <;> simp [hnil, hlower]
    · rw [if_neg hname, ih name]
      by_cases hlower : lower name = name
      · have hsame : ¬ SameLetters h.1 name := by
          intro hsame
          apply hname
          rw [← hlower, Text.Ascii.sameLetters_iff.mp hsame]
        rw [if_neg hsame, List.append_nil]
      · simp only [hlower, false_and, if_false]

theorem contains_receivedHeaders {headers : List (String × Bytes)} {name : String} :
    Dictionary.contains name (receivedHeaders headers) = true ↔
      lower name = name ∧ ∃ h ∈ headers, SameLetters h.1 name := by
  rw [Dictionary.contains, get?_receivedHeaders, ← valuesOf_ne_nil_iff]
  split
  · next h => exact iff_of_true rfl h
  · next h => exact iff_of_false Bool.false_ne_true h

theorem get?_receivedHeaders_of_mem {headers : List (String × Bytes)} {h : String × Bytes}
    (hmem : h ∈ headers) : Dictionary.get? (lower h.1) (receivedHeaders headers)
      = some ((valuesOf h.1 headers).map decodeLossy) := by
  have hsame := sameLetters_lower h.1
  have hvalues : valuesOf (lower h.1) headers ≠ [] := valuesOf_ne_nil_iff.mpr ⟨h, hmem, hsame⟩
  rw [get?_receivedHeaders, if_pos ⟨Text.Ascii.lower_lower h.1, hvalues⟩,
    valuesOf_congr hsame headers]

/-! ### Nothing is lost -/

/-- A value that is put behind those of its name is one header more. -/
theorem entries_insert {seen : HeaderMap} (h : seen.Ordered) (name value : String) :
    (entries (Dictionary.insert name ((Dictionary.get? name seen).getD [] ++ [value]) seen)).Perm
      ((name, value) :: entries seen) := by
  induction seen with
  | nil => exact List.Perm.refl _
  | cons e seen ih =>
    obtain ⟨name', values⟩ := e
    obtain ⟨hlt, hseen⟩ := Dictionary.ordered_cons.mp h
    rw [Dictionary.get?_cons, Dictionary.insert]
    split
    · next hbefore =>
      -- the name is before all that are there
      have hnone : Dictionary.get? name seen = none := by
        rw [Dictionary.get?_eq_none_iff]
        intro e he heq
        have hlt' := String.lt_trans hbefore (hlt e he)
        rw [heq] at hlt'
        exact String.lt_irrefl name hlt'
      have hne : name ≠ name' := by
        rintro rfl
        exact String.lt_irrefl name hbefore
      rw [if_neg hne, hnone]
      exact List.Perm.refl _
    · split
      · next hsame =>
        subst hsame
        rw [Option.getD_some, entries, List.flatMap_cons, List.map_append, List.append_assoc]
        exact List.perm_middle
      · next hne =>
        rw [entries, List.flatMap_cons]
        exact ((ih hseen).append_left _).trans List.perm_middle

theorem entries_receivedHeaders (headers : List (String × Bytes)) :
    (entries (receivedHeaders headers)).Perm (headers.map shown) := by
  induction headers using List.reverseRecOn with
  | nil => exact List.Perm.refl _
  | append_singleton headers h ih =>
    rw [receivedHeaders_snoc, List.map_append]
    calc entries _
        ~ shown h :: entries (receivedHeaders headers) :=
          entries_insert (ordered_receivedHeaders headers) _ _
      _ ~ shown h :: headers.map shown := ih.cons _
      _ ~ headers.map shown ++ [shown h] := (List.perm_append_singleton _ _).symm

/-! ### In any order -/

/-- What is seen does not depend on where the headers of other names stand. -/
theorem receivedHeaders_congr {received listed : List (String × Bytes)}
    (h : KeepsValues received listed) : receivedHeaders listed = receivedHeaders received := by
  apply (ordered_receivedHeaders listed).ext_get? (ordered_receivedHeaders received)
  intro name
  rw [get?_receivedHeaders, get?_receivedHeaders, h name]

/-- **A caller sees all headers that were received**, in whatever order they are listed, as
long as it keeps the values of each name in theirs: each name once and in lower case, with the
texts of exactly its values in the order in which they came, and no name or value more. -/
theorem receivedHeaders_shows (received listed : List (String × Bytes))
    (h : KeepsValues received listed) : Shows (receivedHeaders listed) received := by
  rw [receivedHeaders_congr h]
  exact
    { ordered := ordered_receivedHeaders received
      names := fun _ => contains_receivedHeaders
      values := fun _ => get?_receivedHeaders_of_mem
      texts := by
        intro g _ cs
        rw [decodeLossy, String.toList_ofList]
        exact Text.Utf8.readsLossily_iff
      all := entries_receivedHeaders received }

/-- Two cookies with another header between them, the second not in UTF-8. -/
def cookies : List (String × Bytes) :=
  [("Set-Cookie", Text.Utf8.encode "a=1"), ("Content-Type", Text.Utf8.encode "text/plain"),
    ("set-cookie", [0x62, 0x3D, 0xE2, 0x82])]

/-- The same headers as a map lists them, each name with all its values. -/
def cookiesListed : List (String × Bytes) :=
  [("set-cookie", Text.Utf8.encode "a=1"), ("set-cookie", [0x62, 0x3D, 0xE2, 0x82]),
    ("content-type", Text.Utf8.encode "text/plain")]

theorem receivedHeaders_shows_cookies :
    KeepsValues cookies cookiesListed ∧ Shows (receivedHeaders cookiesListed) cookies ∧
      Dictionary.get? "set-cookie" (receivedHeaders cookiesListed) = some ["a=1", "b=\uFFFD"] := by
  have hkeeps : KeepsValues cookies cookiesListed := by decide
  have hshows := receivedHeaders_shows cookies cookiesListed hkeeps
  refine ⟨hkeeps, hshows, ?_⟩
  rw [show "set-cookie" = lower "Set-Cookie" by decide, hshows.values _ List.mem_cons_self]
  decide +kernel

end Switchboard.Http
