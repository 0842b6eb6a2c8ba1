import Switchboard.Proofs.Http.Headers

/-!
# What a look-up of a header finds

A request is asked for a header before it is sent, and whatever the case of the name it
finds one exactly if one will be on the wire.  Which value it finds is another matter: of
several names that differ in case alone the look-up takes the first, while the wire has the
value of the last.

## Main definitions

* `IsFirstGiven` — the value of the first name, where `IsGiven` has that of the last.

## Main results

* `header?_eq_some_iff` — what the look-up finds.
* `header?_eq_sent_iff` — **when the look-up finds what is sent.**
-/

namespace Switchboard

open Text.Ascii (lower SameLetters)

/-- The caller gives a value under the least of the names that differ from a name in case
alone, in the order of their bytes. -/
def IsFirstGiven (given : Dictionary String) (name value : String) : Prop :=
  ∃ k, (k, value) ∈ given ∧ SameLetters k name ∧
    ∀ h ∈ given, SameLetters h.1 name → Text.Utf8.encode k ≤ Text.Utf8.encode h.1

/-- Names that are given later are greater, so a name in front of them is the first. -/
theorem isFirstGiven_cons {h : String × String} {given : Dictionary String}
    (hordered : Dictionary.Ordered (h :: given)) (name value : String) :
    IsFirstGiven (h :: given) name value ↔
      if SameLetters h.1 name then value = h.2 else IsFirstGiven given name value := by
  obtain ⟨hfirst, -⟩ := List.pairwise_cons.mp hordered
  by_cases hsame : SameLetters h.1 name
  · rw [if_pos hsame]
    constructor
    · rintro ⟨k, hk, -, hmin⟩
      rcases List.mem_cons.mp hk with hk | hk
      · exact congrArg Prod.snd hk
      · -- a name among the later ones is not the least
        have hle := hmin h List.mem_cons_self hsame
        exact absurd (Text.Utf8.encode_lt_iff.mpr (hfirst _ hk)) hle
    · rintro rfl
      refine ⟨h.1, List.mem_cons_self, hsame, fun g hg _ => ?_⟩
      rcases List.mem_cons.mp hg with rfl | hg
      · exact List.le_refl _
      · exact encode_le_of_lt (hfirst g hg)
  · rw [if_neg hsame]
    constructor
    · rintro ⟨k, hk, hkname, hmin⟩
      rcases List.mem_cons.mp hk with hk | hk
      · rw [← hk] at hsame
        exact absurd hkname hsame
      · exact ⟨k, hk, hkname, fun g hg => hmin g (List.mem_cons_of_mem _ hg)⟩
    · rintro ⟨k, hk, hkname, hmin⟩
      refine ⟨k, List.mem_cons_of_mem _ hk, hkname, fun g hg hgname => ?_⟩
      rcases List.mem_cons.mp hg with rfl | hg
      · exact absurd hgname hsame
      · exact hmin g hg hgname

/-- The look-up finds the value of the first name. -/
theorem find?_eq_some_iff {given : Dictionary String} (h : Dictionary.Ordered given)
    (name value : String) :
    (given.find? fun e => SameLetters e.1 name).map Prod.snd = some value ↔
      IsFirstGiven given name value := by
  induction given with
  | nil =>
    constructor
    · intro hnone
      cases hnone
    · rintro ⟨k, hk, -⟩
      cases hk
  | cons g given ih =>
    rw [isFirstGiven_cons h, List.find?_cons]
    by_cases hsame : SameLetters g.1 name
    · rw [if_pos hsame, decide_eq_true hsame, Option.map_some, Option.some.injEq]
      exact eq_comm
    · rw [if_neg hsame, decide_eq_false hsame, ih (List.pairwise_cons.mp h).2]

theorem header?_eq_some_iff {r : CallRequest} (h : Dictionary.Ordered r.headers)
    (name value : String) :
    r.header? name = some value ↔ IsFirstGiven r.headers name value :=
  find?_eq_some_iff h name value

/-- The look-up finds nothing exactly if nothing is sent under the name. -/
theorem header?_eq_none_iff {r : CallRequest} {sent : Dictionary String}
    (hsent : Http.wireHeaders r.headers = .ok sent) (name : String) :
    r.header? name = none ↔ Dictionary.get? (lower name) sent = none := by
  rw [Http.sent_of_wireHeaders hsent, Http.get?_sent_eq_none, ← header?_isNone,
    Option.isNone_iff_eq_none]

/-- **When the look-up finds what is sent.**  For headers that can be sent, and for every
name, the look-up finds nothing exactly if nothing is sent under the name.  What it finds is
the value of the first of the names that differ from it in case alone, and what is sent is
the value of the last; so the two agree exactly if those two values are the same. -/
theorem header?_eq_sent_iff {r : CallRequest} (hordered : Dictionary.Ordered r.headers)
    {sent : Dictionary String} (hsent : Http.wireHeaders r.headers = .ok sent) (name : String) :
    (r.header? name = none ↔ Dictionary.get? (lower name) sent = none) ∧
      (∀ value, r.header? name = some value ↔ IsFirstGiven r.headers name value) ∧
      (∀ value, Dictionary.get? (lower name) sent = some value ↔
        IsGiven r.headers name value) ∧
      (r.header? name = Dictionary.get? (lower name) sent ↔
        ∀ first last, IsFirstGiven r.headers name first → IsGiven r.headers name last →
          first = last) := by
  have hfirst := header?_eq_some_iff hordered name
  have hnone := header?_eq_none_iff hsent name
  have hlast : ∀ value, Dictionary.get? (lower name) sent = some value ↔
      IsGiven r.headers name value := by
    intro value
    rw [Http.sent_of_wireHeaders hsent]
    exact Http.get?_sent hordered name value
  refine ⟨hnone, hfirst, hlast, fun hagree first last hf hl => ?_, fun hsame => ?_⟩
  · rw [← hfirst, hagree, hlast] at hf
    exact Option.some.inj (((hlast first).mpr hf).symm.trans ((hlast last).mpr hl))
  · cases hlooked : r.header? name with
    | none => exact (hnone.mp hlooked).symm
    | some first =>
      cases hwire : Dictionary.get? (lower name) sent with
      | none =>
        rw [hnone.mpr hwire] at hlooked
        cases hlooked
      | some last => rw [hsame first last ((hfirst first).mp hlooked) ((hlast last).mp hwire)]

/-- A request with a name in two cases, and with one value under both. -/
def sameTwice : CallRequest where
  deadline := none
  method := ""
  headers := [("Accept", "*/*"), ("X-Trace", "1"), ("x-trace", "1")]
  body := .empty

theorem header?_eq_sent_iff_sameTwice :
    Dictionary.Ordered sameTwice.headers ∧
      Http.wireHeaders sameTwice.headers = .ok [("accept", "*/*"), ("x-trace", "1")] ∧
      sameTwice.header? "X-TRACE"
        = Dictionary.get? (lower "X-TRACE") [("accept", "*/*"), ("x-trace", "1")] := by
  have hordered : Dictionary.Ordered sameTwice.headers := by decide
  have hsent : Http.wireHeaders sameTwice.headers
      = .ok [("accept", "*/*"), ("x-trace", "1")] := by
    decide +kernel
  refine ⟨hordered, hsent, ?_⟩
  have hagrees := (header?_eq_sent_iff hordered hsent "X-TRACE").2.2.2
  refine hagrees.mpr ?_
  rintro first last ⟨k, hk, hname, -⟩ ⟨k', hk', hname', -⟩
  have hone : ∀ h ∈ sameTwice.headers, SameLetters h.1 "X-TRACE" → h.2 = "1" := by decide
  exact (hone _ hk hname).trans (hone _ hk' hname').symm

/-- A request with a name in two cases, and with a value of its own under each. -/
def tracedTwice : CallRequest where
  deadline := none
  method := ""
  headers := [("X-Trace", "1"), ("x-trace", "2")]
  body := .empty

/-- The look-up need not find what is sent: it finds the first of two values where the
second is on the wire. -/
theorem header?_tracedTwice :
    Dictionary.Ordered tracedTwice.headers ∧
      Http.wireHeaders tracedTwice.headers = .ok [("x-trace", "2")] ∧
      Dictionary.get? (lower "x-trace") [("x-trace", "2")] = some "2" ∧
      tracedTwice.header? "x-trace" = some "1" := by
  decide +kernel

end Switchboard
