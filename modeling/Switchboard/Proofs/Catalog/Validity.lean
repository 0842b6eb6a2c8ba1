import Mathlib.Data.List.Nodup
import Switchboard.Catalog.Basic

/-!
# Catalogs that are valid

The endpoints of a catalog are checked one after the other, with the names of those before
in hand.  What the check says can be said without it: of every endpoint, what is wrong with
it where it stands; of the whole, which fault is the first.

## Main definitions

* `Endpoint.Usable` — neither the name nor the address is blank.
* `Catalog.Fault` — what is wrong with an endpoint that has others before it.
* `Catalog.FaultAt`, `Catalog.FirstFault` — what is wrong with the endpoint at a position, and
  what is wrong first.
* `Catalog.Remembers` — the invariant of the check: the names in hand are those of before.

## Main results

* `Catalog.validateFrom_eq_ok_iff` — the check passes what is usable and has distinct names.
* `Catalog.validateFrom_eq_error_iff` — the check reports the first fault.
* `Catalog.validate_iff` — **the check of a catalog, and what a valid one has under a name.**
-/

namespace Switchboard

/-- Neither the name nor the address is blank. -/
def Endpoint.Usable (e : Endpoint) : Prop :=
  ¬ Text.IsBlank e.friendlyName ∧ ¬ Text.IsBlank e.url

namespace Catalog

variable {e : Endpoint} {es earlier : List Endpoint} {seen : List String} {f f' : Failure}

/-! ### Faults -/

/-- What is wrong with an endpoint that comes after the `earlier` ones: a blank name, a
blank address, or, if it has neither, the name of one that came before. -/
inductive Fault (earlier : List Endpoint) (e : Endpoint) : Failure → Prop where
  /-- The name is blank. -/
  | blankName (h : Text.IsBlank e.friendlyName) :
    Fault earlier e (.validation "endpoint friendly name is required")
  /-- The address is blank. -/
  | blankUrl (hname : ¬ Text.IsBlank e.friendlyName) (h : Text.IsBlank e.url) :
    Fault earlier e (.validation "endpoint URL is required")
  /-- The name is that of an earlier endpoint. -/
  | repeated (husable : e.Usable) {e' : Endpoint} (hmem : e' ∈ earlier)
      (hname : e'.friendlyName = e.friendlyName) :
    Fault earlier e (.validation ("duplicate endpoint name: " ++ e.friendlyName))

/-- What is wrong with the endpoint at a position, after the `earlier` ones and those in
front of it. -/
def FaultAt (earlier es : List Endpoint) (i : ℕ) (f : Failure) : Prop :=
  ∃ e, es[i]? = some e ∧ Fault (earlier ++ es.take i) e f

/-- The first fault among endpoints that come after the `earlier` ones. -/
def FirstFault (earlier es : List Endpoint) (f : Failure) : Prop :=
  ∃ i, FaultAt earlier es i f ∧ ∀ j < i, ∀ f', ¬ FaultAt earlier es j f'

theorem faultAt_zero : FaultAt earlier (e :: es) 0 f ↔ Fault earlier e f := by
  simp [FaultAt]

theorem faultAt_succ (i : ℕ) :
    FaultAt earlier (e :: es) (i + 1) f ↔ FaultAt (earlier ++ [e]) es i f := by
  simp [FaultAt]

/-! ### One endpoint of the check -/

/-- The names in hand are those of the `earlier` endpoints. -/
def Remembers (seen : List String) (earlier : List Endpoint) : Prop :=
  ∀ name, name ∈ seen ↔ ∃ e' ∈ earlier, e'.friendlyName = name

theorem remembers_names (earlier : List Endpoint) :
    Remembers (earlier.map Endpoint.friendlyName) earlier := by
  intro name
  exact List.mem_map

/-- The names in hand after one more endpoint. -/
theorem Remembers.cons (h : Remembers seen earlier) :
    Remembers (e.friendlyName :: seen) (earlier ++ [e]) := by
  intro name
  simp only [List.mem_cons, h name, List.mem_append, List.not_mem_nil, or_false]
  constructor
  · rintro (rfl | ⟨e', hmem, hname⟩)
    · exact ⟨e, Or.inr rfl, rfl⟩
    · exact ⟨e', Or.inl hmem, hname⟩
  · rintro ⟨e', hmem | rfl, hname⟩
    · exact Or.inr ⟨e', hmem, hname⟩
    · exact Or.inl hname.symm

/-- An endpoint that is at fault is reported. -/
theorem validateFrom_cons_of_fault (hseen : Remembers seen earlier) (h : Fault earlier e f) :
    validateFrom seen (e :: es) = .error f := by
  cases h with
  | blankName h => simp [validateFrom, Endpoint.validate, h]
  | blankUrl hname h => simp [validateFrom, Endpoint.validate, hname, h]
  | repeated husable hmem hname =>
    have hin : e.friendlyName ∈ seen := (hseen _).mpr ⟨_, hmem, hname⟩
    simp [validateFrom, Endpoint.validate, husable.1, husable.2, hin, duplicate]

/-- After an endpoint that is not at fault the check goes on. -/
theorem validateFrom_cons_of_clear (hseen : Remembers seen earlier)
    (h : ∀ f, ¬ Fault earlier e f) :
    validateFrom seen (e :: es) = validateFrom (e.friendlyName :: seen) es := by
  have hname : ¬ Text.IsBlank e.friendlyName := fun hb => h _ (.blankName hb)
  have hurl : ¬ Text.IsBlank e.url := fun hb => h _ (.blankUrl hname hb)
  have hnew : e.friendlyName ∉ seen := by
    intro hin
    obtain ⟨e', hmem, hsame⟩ := (hseen _).mp hin
    exact h _ (.repeated ⟨hname, hurl⟩ hmem hsame)
  simp [validateFrom, Endpoint.validate, hname, hurl, hnew]

/-- There is one thing to report of an endpoint. -/
theorem Fault.unique (h : Fault earlier e f) (h' : Fault earlier e f') : f = f' := by
  have hreport : validateFrom (earlier.map Endpoint.friendlyName) [e] = .error f :=
    validateFrom_cons_of_fault (remembers_names earlier) h
  rw [validateFrom_cons_of_fault (remembers_names earlier) h'] at hreport
  exact (Except.error.inj hreport).symm

/-! ### The whole check -/

/-- The check passes exactly the endpoints that are usable and have names of their own. -/
theorem validateFrom_eq_ok_iff (seen : List String) (es : List Endpoint) :
    validateFrom seen es = .ok () ↔ (∀ e ∈ es, e.Usable) ∧
      (es.map Endpoint.friendlyName).Nodup ∧ ∀ e ∈ es, e.friendlyName ∉ seen := by
  induction es generalizing seen with
  | nil => simp [validateFrom]
  | cons e es ih =>
    by_cases hname : Text.IsBlank e.friendlyName
    · simp [validateFrom, Endpoint.validate, Endpoint.Usable, hname]
    by_cases hurl : Text.IsBlank e.url
    · simp [validateFrom, Endpoint.validate, Endpoint.Usable, hname, hurl]
    by_cases hin : e.friendlyName ∈ seen
    · simp [validateFrom, Endpoint.validate, hname, hurl, hin]
    · have hstep : validateFrom seen (e :: es) = validateFrom (e.friendlyName :: seen) es := by
        simp [validateFrom, Endpoint.validate, hname, hurl, hin]
      rw [hstep, ih]
      simp only [List.map_cons, List.nodup_cons, List.mem_map, List.mem_cons, not_or,
        Endpoint.Usable]
      grind

/-- The check reports the first fault. -/
theorem validateFrom_eq_error_iff (es : List Endpoint) : ∀ (earlier : List Endpoint)
    (seen : List String), Remembers seen earlier →
      ∀ f, validateFrom seen es = .error f ↔ FirstFault earlier es f := by
  induction es with
  | nil =>
    intro earlier seen _ f
    constructor
    · intro h
      cases h
    · rintro ⟨i, ⟨e, he, -⟩, -⟩
      simp at he
  | cons e es ih =>
    intro earlier seen hseen f
    by_cases hfault : ∃ f₀, Fault earlier e f₀
    · -- the first of them is at fault, and nothing is looked at behind it
      obtain ⟨f₀, hfault⟩ := hfault
      rw [validateFrom_cons_of_fault hseen hfault]
      constructor
      · intro h
        cases h
        exact ⟨0, faultAt_zero.mpr hfault, fun j hj => absurd hj (Nat.not_lt_zero j)⟩
      · rintro ⟨i, hi, hbefore⟩
        cases i with
        | zero => rw [hfault.unique (faultAt_zero.mp hi)]
        | succ i => exact absurd (faultAt_zero.mpr hfault) (hbefore 0 (Nat.succ_pos i) f₀)
    · have hclear : ∀ f, ¬ Fault earlier e f := fun f hf => hfault ⟨f, hf⟩
      rw [validateFrom_cons_of_clear hseen hclear, ih _ _ hseen.cons]
      constructor
      · rintro ⟨i, hi, hbefore⟩
        refine ⟨i + 1, (faultAt_succ i).mpr hi, ?_⟩
        intro j hj f' hfj
        cases j with
        | zero => exact hclear f' (faultAt_zero.mp hfj)
        | succ j => exact hbefore j (by omega) f' ((faultAt_succ j).mp hfj)
      · rintro ⟨i, hi, hbefore⟩
        cases i with
        | zero => exact absurd (faultAt_zero.mp hi) (hclear f)
        | succ i =>
          refine ⟨i, (faultAt_succ i).mp hi, ?_⟩
          intro j hj f' hfj
          exact hbefore (j + 1) (by omega) f' ((faultAt_succ j).mpr hfj)

/-! ### Looking up -/

/-- Where the names are distinct, every endpoint is found under its own. -/
theorem get?_of_mem {c : Catalog} (hnames : c.names.Nodup) (hmem : e ∈ c.endpoints) :
    c.get? e.friendlyName = some e := by
  obtain ⟨e', hfound⟩ : ∃ e', c.get? e.friendlyName = some e' := by
    rw [← Option.isSome_iff_exists, get?, List.find?_isSome]
    exact ⟨e, hmem, decide_eq_true rfl⟩
  have hname : e'.friendlyName = e.friendlyName := by
    rw [get?] at hfound
    simpa using List.find?_some hfound
  have hmem' : e' ∈ c.endpoints := List.mem_of_find?_eq_some hfound
  rw [hfound, List.inj_on_of_nodup_map hnames hmem' hmem hname]

/-- Nothing is found under a name that no endpoint has. -/
theorem get?_eq_none_iff (c : Catalog) (name : String) :
    c.get? name = none ↔ name ∉ c.names := by
  simp [get?, names]

/-- **The check of a catalog, and what a valid one has under a name.**  A catalog passes
exactly if none of its endpoints has a blank name or a blank address, and all names are
distinct.  Then every endpoint is what is found under its name, and nothing is found under
any other name.  Otherwise the first endpoint that is at fault is reported; that it is not
usable by itself comes before that it repeats a name. -/
theorem validate_iff (c : Catalog) :
    (c.validate = .ok () ↔ (∀ e ∈ c.endpoints, e.Usable) ∧ c.names.Nodup) ∧
      (c.validate = .ok () →
        (∀ (i : ℕ) (hi : i < c.endpoints.length),
          c.get? c.endpoints[i].friendlyName = some c.endpoints[i]) ∧
        ∀ name, name ∉ c.names → c.get? name = none) ∧
      ∀ f, c.validate = .error f ↔ FirstFault [] c.endpoints f := by
  have hok : c.validate = .ok () ↔ (∀ e ∈ c.endpoints, e.Usable) ∧ c.names.Nodup := by
    rw [validate, validateFrom_eq_ok_iff]
    simp [names]
  refine ⟨hok, ?_, ?_⟩
  · intro hvalid
    obtain ⟨-, hnames⟩ := hok.mp hvalid
    refine ⟨?_, ?_⟩
    · intro i hi
      exact get?_of_mem hnames (List.getElem_mem hi)
    · intro name hname
      exact (c.get?_eq_none_iff name).mpr hname
  · intro f
    exact validateFrom_eq_error_iff c.endpoints [] [] (remembers_names []) f

end Catalog

end Switchboard
