import Mathlib.Order.Lattice
import Mathlib.Data.Nat.Notation
import Switchboard.Proto.Json.Reading

/-!
# How deeply a document may be nested

A document is read with room for a number of arrays and objects around a value.  Where it is
nested no deeper than that, more room makes no difference.  Where it is, more room may let
it be read, but it never changes what is read.

## Main definitions

* `Narrower` — the outcome with less room.

## Main result

* `Pool.narrower_read?` — reading a message with less room.
-/

namespace Switchboard.Proto

open Json

/-- The outcome `x` with some room is the outcome `y` with more, or there is no outcome and
the document is deeper than the room. -/
def Narrower {α : Type} (room depth : ℕ) (x y : Option α) : Prop :=
  x = y ∨ (room < depth ∧ x = none)

namespace Narrower

variable {α β : Type} {room depth : ℕ} {x y : Option α}

theorem refl (x : Option α) : Narrower room depth x x := Or.inl rfl

theorem mono {depth' : ℕ} (h : Narrower room depth x y) (hle : depth ≤ depth') :
    Narrower room depth' x y := h.imp_right fun hdeep => ⟨by omega, hdeep.2⟩

theorem map (h : Narrower room depth x y) (f : α → β) :
    Narrower room depth (x.map f) (y.map f) := by
  rcases h with rfl | ⟨hdeep, rfl⟩
  · exact refl _
  · exact Or.inr ⟨hdeep, rfl⟩

theorem bind (h : Narrower room depth x y) {f g : α → Option β}
    (hfg : ∀ a, Narrower room depth (f a) (g a)) :
    Narrower room depth (x.bind f) (y.bind g) := by
  rcases h with rfl | ⟨hdeep, rfl⟩
  · cases x with
    | none => exact refl _
    | some a => exact hfg a
  · exact Or.inr ⟨hdeep, rfl⟩

theorem bind_right (x : Option α) {f g : α → Option β}
    (hfg : ∀ a, Narrower room depth (f a) (g a)) :
    Narrower room depth (x.bind f) (x.bind g) := bind (refl x) hfg

/-- An array or an object takes one of the room. -/
theorem inside {room' : ℕ} {f : ℕ → Option α} (hle : room ≤ room')
    (h : ∀ {r r' : ℕ}, r ≤ r' → Narrower r depth (f r) (f r')) :
    Narrower room (depth + 1) (if room = 0 then none else f (room - 1))
      (if room' = 0 then none else f (room' - 1)) := by
  by_cases hroom : room = 0
  · rw [if_pos hroom]
    exact Or.inr ⟨by omega, rfl⟩
  · rw [if_neg hroom, if_neg (by omega)]
    exact (h (by omega)).imp_right fun hdeep => ⟨by omega, hdeep.2⟩

end Narrower

/-! ### Types with a form of their own -/

namespace Special

mutual

theorem narrower_valueRecords? : (d : Document) → ∀ {room room' : ℕ}, room ≤ room' →
    Narrower room d.depth (valueRecords? room d) (valueRecords? room' d)
  | .null | .bool _ | .number _ | .string _ => fun _ => by
    simp only [valueRecords?]
    exact .refl _
  | .object ms => fun hle => by
    simp only [valueRecords?, Document.depth]
    exact .inside hle fun hle => (narrower_structRecords? ms hle).map _
  | .array xs => fun hle => by
    simp only [valueRecords?, Document.depth]
    exact .inside hle fun hle => (narrower_listRecords? xs hle).map _

theorem narrower_structRecords? : (ms : List (Option String × Document)) →
    ∀ {room room' : ℕ}, room ≤ room' →
      Narrower room (Document.depthMembers ms) (structRecords? room ms) (structRecords? room' ms)
  | [] => fun _ => .refl _
  | (k, d) :: ms => fun hle => by
    simp only [structRecords?, Document.depthMembers]
    refine .bind_right _ fun k => ?_
    refine .bind ((narrower_valueRecords? d hle).mono (Nat.le_max_left _ _)) fun v => ?_
    exact .bind ((narrower_structRecords? ms hle).mono (Nat.le_max_right _ _)) fun _ => .refl _

theorem narrower_listRecords? : (ds : List Document) → ∀ {room room' : ℕ}, room ≤ room' →
    Narrower room (Document.depthAll ds) (listRecords? room ds) (listRecords? room' ds)
  | [] => fun _ => .refl _
  | d :: ds => fun hle => by
    simp only [listRecords?, Document.depthAll]
    refine .bind ((narrower_valueRecords? d hle).mono (Nat.le_max_left _ _)) fun v => ?_
    exact .bind ((narrower_listRecords? ds hle).mono (Nat.le_max_right _ _)) fun _ => .refl _

end

theorem narrower_read? (s : Special) (d : Document) {room room' : ℕ} (hle : room ≤ room') :
    Narrower room d.depth (s.read? room d) (s.read? room' d) := by
  refine .map ?_ _
  cases s with
  | value => exact narrower_valueRecords? d hle
  | struct =>
    cases d with
    | object ms =>
      rw [Document.depth]
      exact .inside hle fun hle => narrower_structRecords? ms hle
    | _ => exact .refl _
  | list =>
    cases d with
    | array xs =>
      rw [Document.depth]
      exact .inside hle fun hle => narrower_listRecords? xs hle
    | _ => exact .refl _
  | empty =>
    cases d with
    | object ms =>
      cases ms with
      | nil =>
        rw [Document.depth]
        exact Narrower.inside hle (f := fun _ => some []) fun _ => .refl _
      | cons e ms => exact .refl _
    | _ => exact .refl _
  | wrapper k => exact .refl _
  | timestamp | duration | paths | any =>
    cases d with
    | string s => cases s <;> exact .refl _
    | _ => exact .refl _

end Special

/-! ### Messages -/

namespace Pool

variable {p : Pool}

theorem narrower_readPlain (type : FieldType) (d : Document) {room room' : ℕ}
    (hle : room ≤ room') :
    Narrower room d.depth (p.readPlain room type d) (p.readPlain room' type d) := by
  cases type with
  | scalar k | enumeration name => exact .refl _
  | message name | group name =>
    unfold readPlain
    dsimp only
    split
    · exact .bind (Special.narrower_read? _ d hle) fun _ => .refl _
    · exact .refl _

mutual

theorem narrower_readContent : (d : Document) → ∀ (shape : Shape) (type : FieldType)
    {room room' : ℕ}, room ≤ room' →
      Narrower room d.depth (p.readContent room shape type d) (p.readContent room' shape type d)
  | .null | .bool _ | .number _ | .string _ => fun shape type room room' hle => by
    simp only [readContent]
    cases shape with
    | single => exact (narrower_readPlain type _ hle).map _
    | list | map key => exact .refl _
  | .array ds => fun shape type room room' hle => by
    simp only [readContent]
    cases shape with
    | single => exact (narrower_readPlain type (.array ds) hle).map _
    | list =>
      rw [Document.depth]
      exact .inside hle fun hle => (narrower_readElements ds type hle).map _
    | map key => exact .refl _
  | .object ms => fun shape type room room' hle => by
    simp only [readContent]
    cases shape with
    | single =>
      cases p.plainMessage? type with
      | some t =>
        rw [Document.depth]
        exact .inside hle fun hle => (narrower_readMembers ms t [] hle).map _
      | none =>
        cases anyType? type with
        | some name =>
          rw [Document.depth]
          refine Narrower.inside hle (f := fun r => (p.ownType? ms).bind fun own =>
            match Special.ofName? own.2.name with
            | none => (p.readMembers r own.2 [] ms).bind fun m =>
              (p.wrap? name own.1 own.2 m).map Content.one
            | some _ => (p.readValueMember r own.2 ms).bind fun m =>
              (p.wrap? name own.1 own.2 m).map Content.one) fun hle => ?_
          refine .bind_right _ fun own => ?_
          split
          · exact (narrower_readMembers ms own.2 [] hle).bind fun _ => .refl _
          · exact (narrower_readValueMember ms own.2 hle).bind fun _ => .refl _
        | none => exact (narrower_readPlain type (.object ms) hle).map _
    | list => exact .refl _
    | map key =>
      rw [Document.depth]
      exact .inside hle fun hle => (narrower_readEntries ms key type [] hle).map _

theorem narrower_readElements : (ds : List Document) → ∀ (type : FieldType) {room room' : ℕ},
    room ≤ room' → Narrower room (Document.depthAll ds) (p.readElements room type ds)
      (p.readElements room' type ds)
  | [] => fun _ _ _ _ => .refl _
  | d :: ds => fun type room room' hle => by
    simp only [readElements, Document.depthAll]
    refine .bind ((narrower_readContent d .single type hle).mono (Nat.le_max_left _ _)) fun c => ?_
    refine .bind_right _ fun x => ?_
    exact .bind ((narrower_readElements ds type hle).mono (Nat.le_max_right _ _)) fun _ => .refl _

theorem narrower_readEntries : (ms : List (Option String × Document)) → ∀ (key : Scalar)
    (type : FieldType) (entries : Dictionary Datum) {room room' : ℕ}, room ≤ room' →
      Narrower room (Document.depthMembers ms) (p.readEntries room key type entries ms)
        (p.readEntries room' key type entries ms)
  | [] => fun _ _ _ _ _ _ => .refl _
  | (k, d) :: ms => fun key type entries room room' hle => by
    simp only [readEntries, Document.depthMembers]
    refine .bind_right _ fun k => .bind_right _ fun k => ?_
    refine .bind ((narrower_readContent d .single type hle).mono (Nat.le_max_left _ _)) fun c => ?_
    refine .bind_right _ fun x => ?_
    exact (narrower_readEntries ms key type _ hle).mono (Nat.le_max_right _ _)

theorem narrower_readMembers : (ms : List (Option String × Document)) → ∀ (t : MessageType)
    (m : Message) {room room' : ℕ}, room ≤ room' →
      Narrower room (Document.depthMembers ms) (p.readMembers room t m ms)
        (p.readMembers room' t m ms)
  | [] => fun _ _ _ _ _ => .refl _
  | (name, d) :: ms => fun t m room room' hle => by
    have hrest : ∀ m, Narrower room (max d.depth (Document.depthMembers ms))
        (p.readMembers room t m ms) (p.readMembers room' t m ms) :=
      fun m => (narrower_readMembers ms t m hle).mono (Nat.le_max_right _ _)
    simp only [readMembers, Document.depthMembers]
    refine .bind_right _ fun name => ?_
    cases t.named? name with
    | none => exact hrest m
    | some f =>
      have hset : ∀ c, Narrower room (max d.depth (Document.depthMembers ms))
          ((choose t f c m).bind fun m => p.readMembers room t m ms)
          ((choose t f c m).bind fun m => p.readMembers room' t m ms) :=
        fun c => .bind_right _ fun m => hrest m
      dsimp only
      by_cases hnull : d.isNull = true
      · rw [if_pos hnull, if_pos hnull]
        refine .bind_right _ fun c => ?_
        cases c with
        | none => exact hrest m
        | some c => exact hset c
      · rw [if_neg hnull, if_neg hnull]
        have hcontent := ((narrower_readContent d f.shape f.type hle).map some).mono
          (Nat.le_max_left _ (Document.depthMembers ms))
        refine hcontent.bind fun c => ?_
        cases c with
        | none => exact hrest m
        | some c => exact hset c

theorem narrower_readValueMember : (ms : List (Option String × Document)) →
    ∀ (t : MessageType) {room room' : ℕ}, room ≤ room' →
      Narrower room (Document.depthMembers ms) (p.readValueMember room t ms)
        (p.readValueMember room' t ms)
  | [] => fun _ _ _ _ => .refl _
  | (name, d) :: ms => fun t room room' hle => by
    simp only [readValueMember, Document.depthMembers]
    split
    · have hcontent := (narrower_readContent d .single (.message t.name) hle).mono
        (Nat.le_max_left _ (Document.depthMembers ms))
      rcases hcontent with heq | ⟨hdeep, hnone⟩
      · rw [heq]
        exact .refl _
      · rw [hnone]
        exact Or.inr ⟨hdeep, rfl⟩
    · exact (narrower_readValueMember ms t hle).mono (Nat.le_max_right _ _)

end

/-- A message that is read with some room is the one that is read with more; and where
nothing is read but something is with more, the document is nested too deeply. -/
theorem narrower_read? (t : MessageType) (d : Document) {room room' : ℕ} (hle : room ≤ room') :
    Narrower room d.depth (p.read? room t d) (p.read? room' t d) := by
  have hcontent := narrower_readContent (p := p) d .single (.message t.name) hle
  unfold read?
  rcases hcontent with heq | ⟨hdeep, hnone⟩
  · rw [heq]
    exact .refl _
  · rw [hnone]
    exact Or.inr ⟨hdeep, rfl⟩

end Pool

end Switchboard.Proto
