import Switchboard.Json.Record
import Switchboard.Proofs.Dictionary

/-!
# Records read back from the values that spell them

A reader of records goes through the members of an object in the order in which they
stand and puts each into the place of its field.  An object that names nothing twice is
therefore read as the fields that it has, in the order of the record, wherever they stood.

## Main definitions

* `Document.shapeOf` — the fields that a dictionary gives for a record.

## Main results

* `Document.record?_object` — the fields that are read from the object of a dictionary.
* `Document.record?_ofMembers` — **a record that is written with all its fields is read
  with all of them**, in their order.
-/

namespace Switchboard.Json.Document

/-! ### Going through the members -/

/-- The fields that a dictionary gives for a record with the given field names. -/
def shapeOf (names : List String) (ms : List (String × Value)) : Shape :=
  names.map fun n => (Dictionary.get? n ms).map ofValue

theorem getElem?_shapeOf (names : List String) (ms : List (String × Value)) (i : ℕ) :
    (shapeOf names ms)[i]? = names[i]?.map fun n => (Dictionary.get? n ms).map ofValue :=
  List.getElem?_map

/-- A member at the end is found unless one of its name stands before it. -/
theorem get?_snoc (n k : String) (v : Value) (ms : List (String × Value)) :
    Dictionary.get? n (ms ++ [(k, v)])
      = (Dictionary.get? n ms).or (if n = k then some v else none) := by
  induction ms with
  | nil => simp
  | cons m ms ih =>
    obtain ⟨k', v'⟩ := m
    by_cases hn : n = k' <;> simp [hn, ih]

variable {names : List String}

/-- A member that is new goes into the place of its field, if the record has it. -/
theorem addMember_shapeOf (hnames : names.Nodup) {before : List (String × Value)} {k : String}
    (hk : Dictionary.get? k before = none) (v : Value) :
    addMember names (shapeOf names before) (some k, ofValue v)
      = some (shapeOf names (before ++ [(k, v)])) := by
  have hother : ∀ n, n ≠ k →
      Dictionary.get? n (before ++ [(k, v)]) = Dictionary.get? n before := by
    intro n hn
    simp [get?_snoc, hn]
  have hself : Dictionary.get? k (before ++ [(k, v)]) = some v := by simp [get?_snoc, hk]
  rw [addMember, Option.bind_eq_bind, Option.bind_some]
  cases hi : names.idxOf? k with
  | none =>
    -- the record has no such field, so nothing changes under the names that it has
    have hno : k ∉ names := List.idxOf?_eq_none_iff.mp hi
    refine congrArg some (List.map_congr_left fun n hn => ?_)
    rw [hother n fun h => hno (h ▸ hn)]
  | some i =>
    obtain ⟨hlt, hget⟩ : ∃ hlt : i < names.length, names[i] = k := by
      obtain ⟨hlt, hget, -⟩ := List.findIdx?_eq_some_iff_getElem.mp hi
      exact ⟨hlt, beq_iff_eq.mp hget⟩
    have hempty : (shapeOf names before)[i]? = some none := by
      rw [getElem?_shapeOf, List.getElem?_eq_getElem hlt, hget, Option.map_some, hk,
        Option.map_none]
    simp only [hempty, Option.some.injEq]
    apply List.ext_getElem?
    intro j
    rw [List.getElem?_set, getElem?_shapeOf, getElem?_shapeOf, shapeOf, List.length_map,
      if_pos hlt]
    by_cases hij : i = j
    · subst hij
      rw [if_pos rfl, List.getElem?_eq_getElem hlt, Option.map_some, hget, hself,
        Option.map_some]
    · rw [if_neg hij]
      cases hj : names[j]? with
      | none => rfl
      | some n =>
        -- the names of a record are distinct, so another place has another name
        obtain ⟨hjlt, hn⟩ := List.getElem?_eq_some_iff.mp hj
        have hne : n ≠ k := by
          intro h
          rw [h, ← hget] at hn
          exact hij ((hnames.getElem_inj_iff.mp hn).symm)
        rw [Option.map_some, Option.map_some, hother n hne]

/-- Members with distinct names are all put into their places. -/
theorem foldlM_addMember (hnames : names.Nodup) (ms before : List (String × Value))
    (hkeys : ((before ++ ms).map Prod.fst).Nodup) :
    (ofValueMembers ms).foldlM (addMember names) (shapeOf names before)
      = some (shapeOf names (before ++ ms)) := by
  induction ms generalizing before with
  | nil => simp [ofValueMembers]
  | cons m ms ih =>
    obtain ⟨k, v⟩ := m
    have hk : Dictionary.get? k before = none := by
      rw [Dictionary.get?_eq_none_iff]
      intro e he hek
      rw [List.map_append, List.nodup_append] at hkeys
      exact hkeys.2.2 e.1 (List.mem_map_of_mem he) k (by simp) hek
    rw [List.append_cons] at hkeys
    rw [ofValueMembers, List.foldlM_cons, addMember_shapeOf hnames hk, Option.bind_eq_bind,
      Option.bind_some, ih (before ++ [(k, v)]) hkeys, List.append_assoc, List.singleton_append]

/-! ### Records -/

/-- From the object of a dictionary the fields are read that the dictionary has. -/
theorem record?_object (hnames : names.Nodup) {ms : Dictionary Value}
    (hms : Dictionary.Ordered ms) (rules : Rules) :
    record? names (ofValue (.object ms)) rules = some (shapeOf names ms) :=
  foldlM_addMember hnames ms [] hms.nodup_keys

/-- **A record that is written with all its fields is read with all of them**, and in their
order, although the object has them in the order of their names. -/
theorem record?_ofMembers {ms : List (String × Value)} (hnames : ms.map Prod.fst = names)
    (hdistinct : names.Nodup) (rules : Rules) :
    record? names (ofValue (.ofMembers ms)) rules
      = some (ms.map fun m => some (ofValue m.2)) := by
  subst hnames
  rw [Value.ofMembers, record?_object hdistinct (Dictionary.ordered_ofList ms), shapeOf,
    List.map_map]
  refine congrArg some (List.map_congr_left fun m hm => ?_)
  have hkept : m ∈ Dictionary.ofList ms := (Dictionary.mem_ofList_iff hdistinct).mpr hm
  rw [Function.comp_apply, (Dictionary.ordered_ofList ms).get?_of_mem hkept, Option.map_some]

/-! ### Fields -/

/-- The text of a text. -/
@[simp] theorem text?_ofValue (s : String) : text? (ofValue (.string s)) = some s := by
  rw [ofValue, text?]

/-- A text that may be missing comes back as it is. -/
theorem optional?_ofValue (s : Option String) :
    optional? text? (ofValue (.ofString? s)) = some s := by
  cases s <;> simp [Value.ofString?, ofValue, optional?, text?]

/-- An integer of sixty-four bits comes back as it is. -/
theorem signed64?_ofValue {i : Int} (hlow : -(2 ^ 63) ≤ i) (hhigh : i ≤ 2 ^ 63 - 1) :
    signed64? (ofValue (.int i)) = some i := by
  rw [Value.int, ofValue, signed64?, integer?, if_pos ⟨hlow, hhigh⟩]

end Switchboard.Json.Document

namespace Switchboard.Json.Value

theorem integersOnlyMembers_of_forall {ms : List (String × Value)}
    (h : ∀ m ∈ ms, m.2.IntegersOnly) : IntegersOnlyMembers ms := by
  induction ms with
  | nil => trivial
  | cons m ms ih =>
    rw [IntegersOnlyMembers]
    exact ⟨h m List.mem_cons_self, ih fun m' hm' => h m' (List.mem_cons_of_mem _ hm')⟩

/-- An object has integers only if its members have. -/
theorem integersOnly_ofMembers {ms : List (String × Value)}
    (h : ∀ m ∈ ms, m.2.IntegersOnly) : (Value.ofMembers ms).IntegersOnly := by
  rw [ofMembers, IntegersOnly]
  exact integersOnlyMembers_of_forall fun m hm => h m (Dictionary.mem_ofList hm)

end Switchboard.Json.Value
