/-!
# Dictionaries

A dictionary holds one value per name and lists its entries in increasing order
of the names.  Names are ordered by code point, which for UTF-8 is the order of
their bytes.

## Main definitions

* `Dictionary α` — the entries, in order.
* `Dictionary.insert`, `Dictionary.erase`, `Dictionary.get?` — the operations.
* `Dictionary.ofList` — the dictionary of a list in which a later entry of the
  same name replaces an earlier one.
* `Dictionary.Ordered` — the names strictly increase.
-/

namespace Switchboard

/-- The entries of a dictionary, in increasing order of their names. -/
abbrev Dictionary (α : Type) := List (String × α)

namespace Dictionary

variable {α β : Type}

/-- The names strictly increase, so that no name occurs twice. -/
def Ordered (d : Dictionary α) : Prop :=
  d.Pairwise fun a b => a.1 < b.1

instance (d : Dictionary α) : Decidable d.Ordered :=
  inferInstanceAs (Decidable (List.Pairwise _ d))

/-- The dictionary with `v` under the name `k`, in place of what was there. -/
def insert (k : String) (v : α) : Dictionary α → Dictionary α
  | [] => [(k, v)]
  | (k', v') :: rest =>
    if k < k' then (k, v) :: (k', v') :: rest
    else if k = k' then (k, v) :: rest
    else (k', v') :: insert k v rest

/-- The value under the name `k`. -/
def get? (k : String) : Dictionary α → Option α
  | [] => none
  | (k', v') :: rest => if k = k' then some v' else get? k rest

/-- The dictionary without the name `k`. -/
def erase (k : String) (d : Dictionary α) : Dictionary α :=
  d.filter fun e => e.1 ≠ k

/-- Whether the dictionary has the name `k`. -/
def contains (k : String) (d : Dictionary α) : Bool :=
  (get? k d).isSome

/-- The names, in order. -/
def keys (d : Dictionary α) : List String :=
  d.map Prod.fst

/-- The dictionary with a function applied to every value. -/
def mapValues (f : α → β) (d : Dictionary α) : Dictionary β :=
  d.map fun e => (e.1, f e.2)

/-- The dictionary of a list of entries; a later entry replaces an earlier one
of the same name. -/
def ofList (entries : List (String × α)) : Dictionary α :=
  entries.foldl (fun d e => insert e.1 e.2 d) []

@[simp] theorem get?_nil (k : String) : get? k ([] : Dictionary α) = none := rfl

@[simp] theorem get?_cons (k k' : String) (v : α) (d : Dictionary α) :
    get? k ((k', v) :: d) = if k = k' then some v else get? k d := rfl

@[simp] theorem ofList_nil : ofList ([] : List (String × α)) = [] := rfl

/-- What is found after an insertion: the new value under its name, and what
was there before under any other. -/
theorem get?_insert (k k' : String) (v : α) (d : Dictionary α) :
    get? k (insert k' v d) = if k = k' then some v else get? k d := by
  induction d with
  | nil => simp [insert]
  | cons e rest ih =>
    obtain ⟨k₀, v₀⟩ := e
    simp only [insert]
    split
    · simp
    · split
      · rename_i h
        subst h
        by_cases hk : k = k' <;> simp [hk]
      · rename_i h
        rw [get?_cons, get?_cons, ih]
        by_cases hk : k = k'
        · subst hk; simp [h]
        · simp [hk]

end Dictionary

end Switchboard
