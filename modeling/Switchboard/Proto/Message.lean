import Switchboard.Decimal.Binary
import Switchboard.Dictionary
import Switchboard.Proto.Wire

/-!
# Messages

A message holds contents under field numbers, in increasing order of the
numbers.  A map is a dictionary under the texts of its keys: within one map all
keys are of one kind, so their texts tell them apart.

Contents that a field has anyway are not held, so that two messages with the same
contents are equal.

## Main definitions

* `Datum` — a single value: a scalar, an enum number or a message.
* `Content` — what stands under a field number.
* `Message` — the contents of a message.
* `Message.get?`, `Message.put`, `Message.drop` — the operations.
-/

namespace Switchboard.Proto

mutual

/-- A single value. -/
inductive Datum where
  /-- A truth value. -/
  | bool (b : Bool)
  /-- An integer of any width, or the number of an enum value. -/
  | int (i : Int)
  /-- A number of single precision. -/
  | single (x : Single)
  /-- A number of double precision. -/
  | double (x : Double)
  /-- A text. -/
  | string (s : String)
  /-- A byte string. -/
  | bytes (bs : Bytes)
  /-- A message. -/
  | message (contents : List (Nat × Content))

/-- What stands under a field number. -/
inductive Content where
  /-- One value. -/
  | one (d : Datum)
  /-- The values of a repeated field. -/
  | list (ds : List Datum)
  /-- The values of a map, under the texts of their keys. -/
  | map (entries : List (String × Datum))
  /-- Payloads under a number that the message type does not know. -/
  | unknown (ps : List Wire.Payload)

end

instance : Inhabited Datum := ⟨.bool false⟩

/-- The contents of a message, in increasing order of their numbers. -/
abbrev Message := List (Nat × Content)

namespace Message

/-- The content under a number. -/
def get? (n : Nat) : Message → Option Content
  | [] => none
  | (n', c) :: m => if n = n' then some c else get? n m

/-- The message with a content under a number, in place of what was there. -/
def put (n : Nat) (c : Content) : Message → Message
  | [] => [(n, c)]
  | (n', c') :: m =>
    if n < n' then (n, c) :: (n', c') :: m
    else if n = n' then (n, c) :: m
    else (n', c') :: put n c m

/-- The message with nothing under a number. -/
def drop (n : Nat) (m : Message) : Message := m.filter (·.1 ≠ n)

/-- The numbers strictly increase. -/
def Ordered (m : Message) : Prop := m.Pairwise fun a b => a.1 < b.1

@[simp] theorem get?_nil (n : Nat) : get? n [] = none := rfl

@[simp] theorem get?_cons (n n' : Nat) (c : Content) (m : Message) :
    get? n ((n', c) :: m) = if n = n' then some c else get? n m := rfl

/-- What is found after a content was put in: it under its number, and what was
there before under any other. -/
theorem get?_put (n n' : Nat) (c : Content) (m : Message) :
    get? n (put n' c m) = if n = n' then some c else get? n m := by
  induction m with
  | nil => simp [put]
  | cons e m ih =>
    obtain ⟨n₀, c₀⟩ := e
    simp only [put]
    split
    · simp
    · split
      · rename_i h
        subst h
        by_cases hn : n = n' <;> simp [hn]
      · rename_i h
        rw [get?_cons, get?_cons, ih]
        by_cases hn : n = n'
        · subst hn; simp [h]
        · simp [hn]

/-- What is found after a number was dropped: nothing under it, and what was
there before under any other. -/
theorem get?_drop (n n' : Nat) (m : Message) :
    get? n (drop n' m) = if n = n' then none else get? n m := by
  induction m with
  | nil => simp [drop]
  | cons e m ih =>
    obtain ⟨n₀, c₀⟩ := e
    unfold drop at ih ⊢
    rw [List.filter_cons]
    by_cases h₀ : n₀ = n'
    · subst h₀
      simp only [ne_eq, decide_not, decide_true, Bool.not_true, Bool.false_eq_true, if_false,
        get?_cons] at ih ⊢
      rw [ih]
      by_cases hn : n = n₀ <;> simp [hn]
    · simp only [ne_eq, h₀, not_false_eq_true, decide_true, if_true, get?_cons]
      rw [ih]
      by_cases hn : n = n'
      · subst hn
        have : n ≠ n₀ := fun e => h₀ e.symm
        simp [this]
      · simp [hn]

end Message

end Switchboard.Proto
