import Mathlib.Data.List.Induction
import Mathlib.Data.List.Nodup
import Mathlib.Data.String.Basic
import Switchboard.Dictionary

/-!
# Dictionaries and their entries

What the operations on a dictionary do to its entries, and that they keep the
entries in order.  In order, a name stands at most once, so looking a name up and
searching the entries for it come to the same.

## Main results

* `get?_filter` — looking up in a part of the dictionary that is chosen by name.
* `Ordered.insert`, `Ordered.filter` — the operations keep the order.
* `map_snd_filter_key`, `countP_key` — an ordered dictionary has one entry of a
  name or none.
* `ofList_of_ordered` — the dictionary of an ordered list.
* `mem_ofList_iff`, `ofList_perm` — the dictionary of entries with distinct names, in
  whatever order they are given.
-/

namespace Switchboard.Dictionary

variable {α : Type}

/-! ### Looking up -/

theorem mem_of_get? {k : String} {v : α} {d : Dictionary α} (h : get? k d = some v) :
    (k, v) ∈ d := by
  induction d with
  | nil => simp at h
  | cons e rest ih =>
    obtain ⟨k', v'⟩ := e
    rw [get?_cons] at h
    split at h
    · next hk =>
      rw [Option.some.injEq] at h
      rw [hk, h]
      exact List.mem_cons_self ..
    · exact List.mem_cons_of_mem _ (ih h)

theorem get?_eq_none_iff {k : String} {d : Dictionary α} :
    get? k d = none ↔ ∀ e ∈ d, e.1 ≠ k := by
  induction d with
  | nil => simp
  | cons e rest ih =>
    obtain ⟨k', v'⟩ := e
    rw [get?_cons, List.forall_mem_cons]
    split
    · next hk => simp [hk]
    · next hk => rw [ih]; exact ⟨fun h => ⟨Ne.symm hk, h⟩, fun h => h.2⟩

/-- Looking up in the part of a dictionary whose names pass a test. -/
theorem get?_filter (p : String → Bool) (k : String) (d : Dictionary α) :
    get? k (d.filter fun e => p e.1) = if p k then get? k d else none := by
  induction d with
  | nil => simp
  | cons e rest ih =>
    obtain ⟨k', v'⟩ := e
    rw [List.filter_cons, get?_cons]
    by_cases hk : k = k'
    · subst hk
      by_cases hp : p k <;> simp [hp, ih]
    · by_cases hp : p k' <;> simp [hp, hk, ih]

/-! ### Entries -/

theorem mem_insert {k : String} {v : α} {d : Dictionary α} {e : String × α}
    (h : e ∈ insert k v d) : e = (k, v) ∨ e ∈ d := by
  induction d with
  | nil => simpa [insert] using h
  | cons e' rest ih =>
    obtain ⟨k', v'⟩ := e'
    rw [insert] at h
    split at h
    · exact List.mem_cons.mp h
    · split at h
      · rcases List.mem_cons.mp h with h | h
        · exact Or.inl h
        · exact Or.inr (List.mem_cons_of_mem _ h)
      · rcases List.mem_cons.mp h with h | h
        · exact Or.inr (h ▸ List.mem_cons_self ..)
        · exact (ih h).imp_right (List.mem_cons_of_mem _)

/-- A name that was not there before is added to the entries. -/
theorem mem_insert_iff {k : String} {v : α} {d : Dictionary α} (h : ∀ e ∈ d, e.1 ≠ k)
    {e : String × α} : e ∈ insert k v d ↔ e = (k, v) ∨ e ∈ d := by
  refine ⟨mem_insert, ?_⟩
  induction d with
  | nil => exact fun he => by simpa [insert] using he
  | cons e' rest ih =>
    obtain ⟨hne, hrest⟩ := List.forall_mem_cons.mp h
    intro he
    rw [insert]
    split
    · exact List.mem_cons.mpr he
    · rw [if_neg (Ne.symm hne)]
      rcases he with he | he
      · exact List.mem_cons_of_mem _ (ih hrest (Or.inl he))
      · rcases List.mem_cons.mp he with he | he
        · exact List.mem_cons.mpr (Or.inl he)
        · exact List.mem_cons_of_mem _ (ih hrest (Or.inr he))

/-! ### Order -/

/-- The first name of an ordered dictionary is below all others. -/
theorem ordered_cons {k : String} {v : α} {d : Dictionary α} :
    Ordered ((k, v) :: d) ↔ (∀ e ∈ d, k < e.1) ∧ d.Ordered :=
  List.pairwise_cons

theorem ordered_nil : Ordered ([] : Dictionary α) := List.Pairwise.nil

theorem Ordered.filter {d : Dictionary α} (h : d.Ordered) (p : String × α → Bool) :
    Ordered (d.filter p) :=
  List.Pairwise.filter p h

theorem Ordered.insert {d : Dictionary α} (h : d.Ordered) (k : String) (v : α) :
    (Dictionary.insert k v d).Ordered := by
  induction d with
  | nil => exact List.pairwise_singleton _ _
  | cons e rest ih =>
    obtain ⟨k', v'⟩ := e
    obtain ⟨hlt, hrest⟩ := ordered_cons.mp h
    rw [Dictionary.insert]
    split
    · next hk =>
      refine ordered_cons.mpr ⟨fun e he => ?_, h⟩
      rcases List.mem_cons.mp he with rfl | he
      · exact hk
      · exact String.lt_trans hk (hlt e he)
    · next hk =>
      split
      · next hk' =>
        subst hk'
        exact ordered_cons.mpr ⟨hlt, hrest⟩
      · next hk' =>
        refine ordered_cons.mpr ⟨fun e he => ?_, ih hrest⟩
        rcases mem_insert he with rfl | he
        · exact lt_of_le_of_ne (String.not_lt.mp hk) (Ne.symm hk')
        · exact hlt e he

/-- The entries of a name in an ordered dictionary are what is found under it. -/
theorem map_snd_filter_key {d : Dictionary α} (h : d.Ordered) (k : String) :
    (d.filter fun e => e.1 = k).map Prod.snd = (get? k d).toList := by
  induction d with
  | nil => rfl
  | cons e rest ih =>
    obtain ⟨k', v'⟩ := e
    obtain ⟨hlt, hrest⟩ := ordered_cons.mp h
    rw [List.filter_cons, get?_cons]
    by_cases hk : k = k'
    · subst hk
      have hnone : get? k rest = none :=
        get?_eq_none_iff.mpr fun e he heq => String.lt_irrefl k (by simpa [heq] using hlt e he)
      have htail := ih hrest
      rw [hnone] at htail
      simp [htail]
    · simp [hk, Ne.symm hk, ih hrest]

/-- An ordered dictionary has one entry of a name, or none. -/
theorem countP_key {d : Dictionary α} (h : d.Ordered) (k : String) :
    d.countP (fun e => e.1 = k) = if (get? k d).isSome then 1 else 0 := by
  rw [List.countP_eq_length_filter, ← List.length_map (f := Prod.snd), map_snd_filter_key h]
  cases get? k d <;> rfl

/-! ### Dictionaries of ordered lists -/

/-- A name above all others is put at the end. -/
theorem insert_of_forall_lt {k : String} {v : α} {d : Dictionary α} (h : ∀ e ∈ d, e.1 < k) :
    insert k v d = d ++ [(k, v)] := by
  induction d with
  | nil => rfl
  | cons e rest ih =>
    obtain ⟨k', v'⟩ := e
    obtain ⟨hk, hrest⟩ := List.forall_mem_cons.mp h
    have hne : k ≠ k' := fun heq => String.lt_irrefl k' (heq ▸ hk)
    rw [insert, if_neg fun hlt => String.lt_irrefl k (String.lt_trans hlt hk), if_neg hne,
      ih hrest, List.cons_append]

/-- The dictionary of a list that is ordered already is that list. -/
theorem ofList_of_ordered {es : List (String × α)} (h : Ordered es) : ofList es = es := by
  have hfold : ∀ d : Dictionary α, Ordered (d ++ es) →
      es.foldl (fun d e => insert e.1 e.2 d) d = d ++ es := by
    clear h
    induction es with
    | nil => exact fun d _ => (List.append_nil d).symm
    | cons e es ih =>
      intro d hd
      obtain ⟨-, -, hlt⟩ := List.pairwise_append.mp hd
      have hmax : ∀ e' ∈ d, e'.1 < e.1 := fun e' he' => hlt e' he' e List.mem_cons_self
      rw [List.append_cons] at hd
      rw [List.foldl_cons, insert_of_forall_lt hmax, ih _ hd, ← List.append_cons]
  exact hfold [] h

theorem contains_iff {k : String} {d : Dictionary α} :
    contains k d = true ↔ k ∈ d.map Prod.fst := by
  rw [contains, ← Option.ne_none_iff_isSome, Ne, get?_eq_none_iff, List.mem_map]
  push Not
  rfl

theorem Ordered.nodup_keys {d : Dictionary α} (h : d.Ordered) : (d.map Prod.fst).Nodup := by
  rw [List.Nodup, List.pairwise_map]
  refine List.Pairwise.imp (fun {a b} hab heq => ?_) h
  rw [heq] at hab
  exact String.lt_irrefl _ hab

theorem contains_insert (k k' : String) (v : α) (d : Dictionary α) :
    contains k (insert k' v d) = (decide (k = k') || contains k d) := by
  rw [contains, get?_insert, contains]
  split
  · next hk => simp [hk]
  · next hk => simp [hk]

theorem ofList_snoc (es : List (String × α)) (e : String × α) :
    ofList (es ++ [e]) = insert e.1 e.2 (ofList es) := by
  rw [ofList, List.foldl_append]
  rfl

theorem ordered_ofList (es : List (String × α)) : Ordered (ofList es) := by
  induction es using List.reverseRecOn with
  | nil => exact ordered_nil
  | append_singleton es e ih =>
    rw [ofList_snoc]
    exact ih.insert _ _

theorem mem_ofList {es : List (String × α)} {e : String × α} (h : e ∈ ofList es) : e ∈ es := by
  induction es using List.reverseRecOn with
  | nil => exact h
  | append_singleton es e' ih =>
    rw [ofList_snoc] at h
    rcases mem_insert h with rfl | h
    · exact List.mem_append_right _ List.mem_cons_self
    · exact List.mem_append_left _ (ih h)

theorem contains_ofList {k : String} {es : List (String × α)} :
    contains k (ofList es) = true ↔ k ∈ es.map Prod.fst := by
  induction es using List.reverseRecOn with
  | nil => simp [contains]
  | append_singleton es e ih =>
    rw [ofList_snoc, contains_insert, Bool.or_eq_true, ih, List.map_append, List.mem_append,
      decide_eq_true_iff, or_comm, List.map_singleton, List.mem_singleton]

/-- Entries with distinct names are all kept. -/
theorem mem_ofList_iff {es : List (String × α)} (h : (es.map Prod.fst).Nodup)
    {e : String × α} : e ∈ ofList es ↔ e ∈ es := by
  refine ⟨mem_ofList, fun he => ?_⟩
  have hkey : e.1 ∈ (ofList es).map Prod.fst :=
    contains_iff.mp (contains_ofList.mpr (List.mem_map_of_mem he))
  obtain ⟨e', he', hkeys⟩ := List.mem_map.mp hkey
  have hsame : e' = e := List.inj_on_of_nodup_map h (mem_ofList he') he hkeys
  exact hsame ▸ he'

theorem Ordered.get?_of_mem {d : Dictionary α} (h : d.Ordered) {k : String} {v : α}
    (hmem : (k, v) ∈ d) : get? k d = some v := by
  cases hget : get? k d with
  | none => exact absurd rfl (get?_eq_none_iff.mp hget _ hmem)
  | some v' =>
    have hsame := List.inj_on_of_nodup_map h.nodup_keys (mem_of_get? hget) hmem rfl
    rw [(Prod.mk.inj hsame).2]

/-- In the dictionary of entries with distinct names each is found under its own. -/
theorem get?_ofList {es : List (String × α)} (h : (es.map Prod.fst).Nodup) (k : String) :
    get? k (ofList es) = get? k es := by
  cases hget : get? k es with
  | none =>
    rw [get?_eq_none_iff] at hget ⊢
    intro e he
    exact hget e (mem_ofList he)
  | some v =>
    have hmem : (k, v) ∈ ofList es := (mem_ofList_iff h).mpr (mem_of_get? hget)
    exact (ordered_ofList es).get?_of_mem hmem

/-- Ordered dictionaries with the same entries are the same. -/
theorem Ordered.ext {d d' : Dictionary α} (h : d.Ordered) (h' : d'.Ordered)
    (hmem : ∀ e, e ∈ d ↔ e ∈ d') : d = d' := by
  have hperm : d.Perm d' :=
    (List.perm_ext_iff_of_nodup (List.Nodup.of_map _ h.nodup_keys)
      (List.Nodup.of_map _ h'.nodup_keys)).mpr hmem
  refine List.Perm.eq_of_pairwise (fun a b _ _ hab hba => ?_) h h' hperm
  exact absurd (String.lt_trans hab hba) (String.lt_irrefl _)

/-- Ordered dictionaries in which the same is found under each name are the same. -/
theorem Ordered.ext_get? {d d' : Dictionary α} (h : d.Ordered) (h' : d'.Ordered)
    (hget : ∀ k, get? k d = get? k d') : d = d' := by
  apply h.ext h'
  intro e
  constructor
  · intro he
    apply mem_of_get?
    rw [← hget]
    exact h.get?_of_mem he
  · intro he
    apply mem_of_get?
    rw [hget]
    exact h'.get?_of_mem he

/-- The dictionary of entries with distinct names does not depend on their order. -/
theorem ofList_perm {es es' : List (String × α)} (h : (es.map Prod.fst).Nodup)
    (hperm : es'.Perm es) : ofList es' = ofList es := by
  have h' : (es'.map Prod.fst).Nodup := (hperm.map _).nodup_iff.mpr h
  refine (ordered_ofList es').ext (ordered_ofList es) fun e => ?_
  rw [mem_ofList_iff h', mem_ofList_iff h, hperm.mem_iff]

theorem Ordered.filterMap {β : Type} {d : Dictionary α} (h : d.Ordered)
    {f : String × α → Option (String × β)} (hf : ∀ e e', f e = some e' → e'.1 = e.1) :
    Ordered (d.filterMap f) := by
  refine List.Pairwise.filterMap f (fun a b hab a' ha' b' hb' => ?_) h
  rw [hf a a' ha', hf b b' hb']
  exact hab

end Switchboard.Dictionary
