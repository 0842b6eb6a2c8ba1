import Mathlib.Tactic.NormNum
import Switchboard.Proofs.Text.Utf8
import Switchboard.Proto.Wire

/-!
# Records come back from their bytes

Every number is read back from its groups of seven bits, whatever follows them, and so is
every payload behind its key.  Records are cut into items, and the items build the records
up again; what bounds the nesting of groups in this is the depth of the records.

## Main definitions

* `Payload.InRange`, `recordsInRange` — numbers that fit their width and field numbers that
  fit a key.
* `Payload.depth`, `recordsDepth` — how deeply groups are nested.

## Main results

* `readVarint?_varint`, `unfixed_fixed`, `unzigzag_zigzag` — numbers come back.
* `readRecords?_writeRecords` — **records come back.**
* `inRange_of_readRecords?` — what is read is in range.
-/

namespace Switchboard.Proto.Wire

/-! ### Numbers -/

theorem readGroups?_varint {places n : ℕ} (h : n < 128 ^ (places + 1)) (rest : Bytes) :
    readGroups? (places + 1) (varint n ++ rest) = some (n, rest) := by
  induction n using Nat.strongRecOn generalizing places with
  | ind n ih =>
    rw [varint]
    by_cases hn : n < 128
    · rw [if_pos hn, List.cons_append, List.nil_append, readGroups?,
        Text.Utf8.toNat_ofNat (by omega), if_pos hn]
    · cases places with
      | zero => exact absurd h hn
      | succ places =>
        have hbyte : (UInt8.ofNat (n % 128 + 128)).toNat = n % 128 + 128 :=
          Text.Utf8.toNat_ofNat (by omega)
        have hrest : n / 128 < 128 ^ (places + 1) := by
          rw [Nat.pow_succ] at h
          omega
        rw [if_neg hn, List.cons_append, readGroups?, hbyte, if_neg (by omega),
          ih (n / 128) (by omega) hrest]
        simp only [Nat.add_sub_cancel, Option.some.injEq, Prod.mk.injEq, and_true]
        omega

/-- A number of sixty-four bits comes back, whatever follows it. -/
theorem readVarint?_varint {n : ℕ} (h : n < 2 ^ 64) (rest : Bytes) :
    readVarint? (varint n ++ rest) = some (n, rest) := by
  rw [readVarint?, readGroups?_varint (by omega)]
  exact if_pos h

theorem varint_ne_nil (n : ℕ) : varint n ≠ [] := by
  rw [varint]
  split <;> simp

@[simp] theorem length_fixed (width n : ℕ) : (fixed width n).length = width := by
  induction width generalizing n with
  | zero => rfl
  | succ width ih => rw [fixed, List.length_cons, ih]

/-- A number that fits the width comes back. -/
theorem unfixed_fixed {width n : ℕ} (h : n < 256 ^ width) : unfixed (fixed width n) = n := by
  induction width generalizing n with
  | zero =>
    rw [Nat.pow_zero] at h
    rw [fixed, unfixed]
    omega
  | succ width ih =>
    have hbyte : (UInt8.ofNat (n % 256)).toNat = n % 256 := Text.Utf8.toNat_ofNat (by omega)
    have hrest : n / 256 < 256 ^ width := by
      rw [Nat.pow_succ] at h
      omega
    rw [fixed, unfixed, hbyte, ih hrest]
    omega

theorem unfixed_lt (bs : Bytes) : unfixed bs < 256 ^ bs.length := by
  induction bs with
  | nil => simp [unfixed]
  | cons b bs ih =>
    have hb := b.toNat_lt
    rw [unfixed, List.length_cons, Nat.pow_succ]
    omega

theorem unzigzag_zigzag (i : Int) : unzigzag (zigzag i) = i := by
  unfold zigzag unzigzag
  split <;> split <;> omega

theorem zigzag_lt (bits : ℕ) {i : Int} (hlow : -(2 ^ bits) ≤ i) (hhigh : i < 2 ^ bits) :
    zigzag i < 2 ^ (bits + 1) := by
  have hpow : (2 : ℕ) ^ (bits + 1) = 2 * 2 ^ bits := by rw [Nat.pow_succ, Nat.mul_comm]
  have hcast : ((2 ^ bits : ℕ) : Int) = 2 ^ bits := by norm_cast
  unfold zigzag
  rw [hpow]
  split <;> omega

theorem split?_append (front rest : Bytes) :
    split? front.length (front ++ rest) = some (front, rest) := by
  simp [split?]

/-! ### Ranges and depths -/

/-- A field number that fits a key. -/
def IsFieldNumber (number : ℕ) : Prop := 1 ≤ number ∧ number < 2 ^ 29

mutual

/-- The numbers in a payload fit their width, and the field numbers in it fit a key. -/
def Payload.InRange : Payload → Prop
  | .varint n | .fixed64 n => n < 2 ^ 64
  | .fixed32 n => n < 2 ^ 32
  | .bytes _ => True
  | .group rs => recordsInRange rs

/-- So do those in the records. -/
def recordsInRange : List (ℕ × Payload) → Prop
  | [] => True
  | (number, p) :: rs => (IsFieldNumber number ∧ p.InRange) ∧ recordsInRange rs

end

theorem recordsInRange_iff {rs : Records} :
    recordsInRange rs ↔ ∀ r ∈ rs, IsFieldNumber r.1 ∧ r.2.InRange := by
  induction rs with
  | nil => simp [recordsInRange]
  | cons r rs ih =>
    obtain ⟨number, p⟩ := r
    rw [recordsInRange, ih, List.forall_mem_cons]

mutual

/-- How deeply groups are nested in a payload. -/
def Payload.depth : Payload → ℕ
  | .group rs => recordsDepth rs + 1
  | _ => 0

/-- How deeply groups are nested in records. -/
def recordsDepth : List (ℕ × Payload) → ℕ
  | [] => 0
  | (_, p) :: rs => max p.depth (recordsDepth rs)

end

theorem recordsDepth_le_iff {rs : Records} {limit : ℕ} :
    recordsDepth rs ≤ limit ↔ ∀ r ∈ rs, r.2.depth ≤ limit := by
  induction rs with
  | nil => simp [recordsDepth]
  | cons r rs ih =>
    obtain ⟨number, p⟩ := r
    rw [recordsDepth, Nat.max_le, ih, List.forall_mem_cons]

/-! ### Items -/

theorem items?_cons {b : UInt8} {bs rest : Bytes} {i : Item}
    (h : nextItem? (b :: bs) = some (i, rest)) :
    items? (b :: bs) = (items? rest).map (i :: ·) := by
  rw [items?]
  split
  · next hnext =>
    rw [h] at hnext
    obtain ⟨rfl, rfl⟩ := Prod.mk.inj (Option.some.inj hnext)
    rfl
  · next hnext =>
    rw [h] at hnext
    cases hnext

theorem items?_of_nextItem? {bs rest : Bytes} {i : Item} (h : nextItem? bs = some (i, rest)) :
    items? bs = (items? rest).map (i :: ·) := by
  cases bs with
  | nil => simp [nextItem?, readVarint?, readGroups?] at h
  | cons b bs => exact items?_cons h

/-- A key is read back, and what belongs to it is read behind it. -/
theorem nextItem?_key {number code : ℕ} (h : IsFieldNumber number) (hcode : code < 8)
    (rest : Bytes) : nextItem? (key number code ++ rest) = readItem? number code rest := by
  obtain ⟨hlow, hhigh⟩ := h
  have hnumber : (8 * number + code) / 8 = number := by omega
  have hrest : (8 * number + code) % 8 = code := by omega
  rw [nextItem?, key, readVarint?_varint (by omega), Option.bind_some]
  dsimp only
  rw [hnumber, hrest, if_pos (by omega)]

mutual

/-- The items of a record. -/
def Payload.items (number : ℕ) : Payload → List Item
  | .group rs => .openGroup number :: (recordItems rs ++ [.closeGroup number])
  | p => [.record number p]

/-- The items of records. -/
def recordItems : List (ℕ × Payload) → List Item
  | [] => []
  | (number, p) :: rs => p.items number ++ recordItems rs

end

mutual

/-- The items of a record come back. -/
theorem items?_write (number : ℕ) (hnumber : IsFieldNumber number) : (p : Payload) →
    p.InRange → (p.write number).length < 2 ^ 64 → ∀ rest : Bytes,
      items? (p.write number ++ rest) = (items? rest).map (p.items number ++ ·)
  | .varint n => fun hp _ rest => by
    have hnext : nextItem? (key number 0 ++ (varint n ++ rest))
        = some (.record number (.varint n), rest) := by
      rw [nextItem?_key hnumber (by decide), readItem?, readVarint?_varint hp, Option.map_some]
    rw [Payload.write, List.append_assoc, items?_of_nextItem? hnext]
    rfl
  | .fixed64 n => fun hp _ rest => by
    have hsplit := split?_append (fixed 8 n) rest
    rw [length_fixed] at hsplit
    have hnext : nextItem? (key number 1 ++ (fixed 8 n ++ rest))
        = some (.record number (.fixed64 n), rest) := by
      rw [nextItem?_key hnumber (by decide), readItem?, hsplit, Option.map_some]
      dsimp only
      rw [unfixed_fixed hp]
    rw [Payload.write, List.append_assoc, items?_of_nextItem? hnext]
    rfl
  | .fixed32 n => fun hp _ rest => by
    have hsplit := split?_append (fixed 4 n) rest
    rw [length_fixed] at hsplit
    have hnext : nextItem? (key number 5 ++ (fixed 4 n ++ rest))
        = some (.record number (.fixed32 n), rest) := by
      rw [nextItem?_key hnumber (by decide), readItem?, hsplit, Option.map_some]
      dsimp only
      rw [unfixed_fixed hp]
    rw [Payload.write, List.append_assoc, items?_of_nextItem? hnext]
    rfl
  | .bytes bs => fun _ hlength rest => by
    have hbs : bs.length < 2 ^ 64 := by
      rw [Payload.write, List.length_append] at hlength
      omega
    have hnext : nextItem? (key number 2 ++ (varint bs.length ++ (bs ++ rest)))
        = some (.record number (.bytes bs), rest) := by
      rw [nextItem?_key hnumber (by decide), readItem?, readVarint?_varint hbs, Option.bind_some]
      dsimp only
      rw [split?_append, Option.map_some]
    rw [Payload.write, List.append_assoc, List.append_assoc, items?_of_nextItem? hnext]
    rfl
  | .group rs => fun hp hlength rest => by
    have hrs : (writeRecords rs).length < 2 ^ 64 := by
      rw [Payload.write, List.length_append, List.length_append] at hlength
      omega
    have hopen : nextItem? (key number 3 ++ (writeRecords rs ++ (key number 4 ++ rest)))
        = some (.openGroup number, writeRecords rs ++ (key number 4 ++ rest)) :=
      nextItem?_key hnumber (by decide) _
    have hclose : nextItem? (key number 4 ++ rest) = some (.closeGroup number, rest) :=
      nextItem?_key hnumber (by decide) _
    rw [Payload.write, List.append_assoc, List.append_assoc, items?_of_nextItem? hopen,
      items?_writeRecords rs hp hrs, items?_of_nextItem? hclose, Option.map_map, Option.map_map,
      Payload.items]
    congr 1
    funext is
    simp

/-- The items of records come back. -/
theorem items?_writeRecords : (rs : List (ℕ × Payload)) → recordsInRange rs →
    (writeRecords rs).length < 2 ^ 64 → ∀ rest : Bytes,
      items? (writeRecords rs ++ rest) = (items? rest).map (recordItems rs ++ ·)
  | [] => fun _ _ rest => by
    simp [recordItems]
  | (number, p) :: rs => fun hrange hlength rest => by
    rw [recordsInRange] at hrange
    rw [writeRecords_cons, List.length_append] at hlength
    rw [writeRecords_cons, List.append_assoc,
      items?_write number hrange.1.1 p hrange.1.2 (by omega),
      items?_writeRecords rs hrange.2 (by omega), Option.map_map, recordItems]
    congr 1
    funext is
    simp

end

/-! ### From items to records -/

mutual

/-- The items of a record add the record. -/
theorem foldlM_items {limit : ℕ} (number : ℕ) : (p : Payload) →
    ∀ (before : Records) (outer : List Frame), outer.length + p.depth ≤ limit →
      (p.items number).foldlM (step limit) ⟨before, outer⟩
        = some ⟨(number, p) :: before, outer⟩
  | .varint n | .fixed64 n | .bytes bs | .fixed32 n => fun _ _ _ => rfl
  | .group rs => fun before outer hdepth => by
    rw [Payload.depth] at hdepth
    have hopen : step limit ⟨before, outer⟩ (.openGroup number)
        = some ⟨[], ⟨before, number⟩ :: outer⟩ := if_pos (by dsimp only; omega)
    have hinner : (recordItems rs).foldlM (step limit) ⟨[], ⟨before, number⟩ :: outer⟩
        = some ⟨rs.reverse ++ [], ⟨before, number⟩ :: outer⟩ :=
      foldlM_recordItems rs _ _ (by rw [List.length_cons]; omega)
    have hclose : step limit ⟨rs.reverse, ⟨before, number⟩ :: outer⟩ (.closeGroup number)
        = some ⟨(number, .group rs) :: before, outer⟩ := by
      rw [step]
      dsimp only
      rw [if_pos rfl, List.reverse_reverse]
    rw [Payload.items, List.foldlM_cons, hopen, Option.bind_eq_bind, Option.bind_some,
      List.foldlM_append, hinner, Option.bind_eq_bind, Option.bind_some, List.append_nil,
      List.foldlM_cons, hclose]
    rfl

/-- The items of records add the records. -/
theorem foldlM_recordItems {limit : ℕ} : (rs : List (ℕ × Payload)) →
    ∀ (before : Records) (outer : List Frame), outer.length + recordsDepth rs ≤ limit →
      (recordItems rs).foldlM (step limit) ⟨before, outer⟩
        = some ⟨rs.reverse ++ before, outer⟩
  | [] => fun _ _ _ => rfl
  | (number, p) :: rs => fun before outer hdepth => by
    rw [recordsDepth] at hdepth
    rw [recordItems, List.foldlM_append, foldlM_items number p _ _ (by omega),
      Option.bind_eq_bind, Option.bind_some, foldlM_recordItems rs _ _ (by omega),
      List.reverse_cons, List.append_assoc]
    rfl

end

/-- **Records come back** from their bytes, if these are fewer than a length can tell and
groups are nested no deeper than the limit. -/
theorem readRecords?_writeRecords {limit : ℕ} {rs : Records} (hrange : recordsInRange rs)
    (hlength : (writeRecords rs).length < 2 ^ 64) (hdepth : recordsDepth rs ≤ limit) :
    readRecords? limit (writeRecords rs) = some rs := by
  have hitems := items?_writeRecords rs hrange hlength []
  rw [List.append_nil, items?, Option.map_some, List.append_nil] at hitems
  have hfold : (recordItems rs).foldlM (step limit) ⟨[], []⟩ = some ⟨rs.reverse ++ [], []⟩ :=
    foldlM_recordItems rs _ _ (by rw [List.length_nil]; omega)
  rw [readRecords?, hitems, Option.bind_some, hfold, List.append_nil]
  dsimp only
  rw [List.reverse_reverse]

/-! ### What is read -/

theorem lt_of_readVarint? {bs rest : Bytes} {n : ℕ} (h : readVarint? bs = some (n, rest)) :
    n < 2 ^ 64 := by
  unfold readVarint? at h
  split at h
  · split at h
    · next hn =>
      obtain ⟨rfl, -⟩ := Prod.mk.inj (Option.some.inj h)
      exact hn
    · cases h
  · cases h

theorem length_of_split? {n : ℕ} {bs front rest : Bytes}
    (h : split? n bs = some (front, rest)) : front.length = n := by
  unfold split? at h
  split at h
  · next hn =>
    obtain ⟨rfl, -⟩ := Prod.mk.inj (Option.some.inj h)
    exact List.length_take_of_le hn
  · cases h

/-- The field number of an item fits a key, and a payload in it is in range. -/
def Item.InRange : Item → Prop
  | .record number p => IsFieldNumber number ∧ p.InRange
  | .openGroup number | .closeGroup number => IsFieldNumber number

theorem inRange_of_readItem? {number code : ℕ} (hnumber : IsFieldNumber number)
    {bs rest : Bytes} {i : Item} (h : readItem? number code bs = some (i, rest)) :
    i.InRange := by
  unfold readItem? at h
  split at h
  · obtain ⟨⟨n, r⟩, hn, heq⟩ := Option.map_eq_some_iff.mp h
    obtain ⟨rfl, -⟩ := Prod.mk.inj heq
    exact ⟨hnumber, lt_of_readVarint? hn⟩
  · obtain ⟨⟨b, r⟩, hb, heq⟩ := Option.map_eq_some_iff.mp h
    obtain ⟨rfl, -⟩ := Prod.mk.inj heq
    have hlt := unfixed_lt b
    rw [length_of_split? hb] at hlt
    exact ⟨hnumber, hlt⟩
  · obtain ⟨⟨n, r⟩, -, h⟩ := Option.bind_eq_some_iff.mp h
    obtain ⟨⟨b, r'⟩, -, heq⟩ := Option.map_eq_some_iff.mp h
    obtain ⟨rfl, -⟩ := Prod.mk.inj heq
    exact ⟨hnumber, trivial⟩
  · obtain ⟨rfl, -⟩ := Prod.mk.inj (Option.some.inj h)
    exact hnumber
  · obtain ⟨rfl, -⟩ := Prod.mk.inj (Option.some.inj h)
    exact hnumber
  · obtain ⟨⟨b, r⟩, hb, heq⟩ := Option.map_eq_some_iff.mp h
    obtain ⟨rfl, -⟩ := Prod.mk.inj heq
    have hlt := unfixed_lt b
    rw [length_of_split? hb] at hlt
    exact ⟨hnumber, hlt⟩
  · cases h

theorem inRange_of_nextItem? {bs rest : Bytes} {i : Item}
    (h : nextItem? bs = some (i, rest)) : i.InRange := by
  obtain ⟨⟨n, r⟩, -, h⟩ := Option.bind_eq_some_iff.mp h
  dsimp only at h
  split at h
  · next hn => exact inRange_of_readItem? ⟨by omega, by omega⟩ h
  · cases h

theorem inRange_of_items? {bs : Bytes} {is : List Item} (h : items? bs = some is) :
    ∀ i ∈ is, i.InRange := by
  fun_induction items? bs generalizing is with
  | case1 =>
    obtain rfl := Option.some.inj h
    simp
  | case2 b bs i rest hnext ih =>
    obtain ⟨is', his', rfl⟩ := Option.map_eq_some_iff.mp h
    exact List.forall_mem_cons.mpr ⟨inRange_of_nextItem? hnext, ih his'⟩
  | case3 => cases h

/-- All records of a state are in range: those of the innermost group, and those in front of
each group around it. -/
structure State.InRange (s : State) : Prop where
  records : recordsInRange s.records
  outer : ∀ frame ∈ s.outer, IsFieldNumber frame.number ∧ recordsInRange frame.before

theorem State.InRange.step {limit : ℕ} {s s' : State} {i : Item} (hs : s.InRange)
    (hi : i.InRange) (h : Wire.step limit s i = some s') : s'.InRange := by
  unfold Wire.step at h
  split at h
  · obtain rfl := Option.some.inj h
    exact ⟨⟨hi, hs.records⟩, hs.outer⟩
  · split at h
    · obtain rfl := Option.some.inj h
      exact ⟨trivial, List.forall_mem_cons.mpr ⟨⟨hi, hs.records⟩, hs.outer⟩⟩
    · cases h
  · split at h
    · next frame outer houter =>
      obtain ⟨⟨hnumber, hbefore⟩, hrest⟩ := List.forall_mem_cons.mp (houter ▸ hs.outer)
      split at h
      · next heq =>
        obtain rfl := Option.some.inj h
        have hgroup : recordsInRange s.records.reverse :=
          recordsInRange_iff.mpr fun r hr =>
            recordsInRange_iff.mp hs.records r (List.mem_reverse.mp hr)
        exact ⟨⟨⟨heq ▸ hnumber, hgroup⟩, hbefore⟩, hrest⟩
      · cases h
    · cases h

theorem State.InRange.foldlM {limit : ℕ} {is : List Item} (his : ∀ i ∈ is, i.InRange)
    {s s' : State} (hs : s.InRange) (h : is.foldlM (Wire.step limit) s = some s') :
    s'.InRange := by
  induction is generalizing s with
  | nil =>
    obtain rfl := Option.some.inj h
    exact hs
  | cons i is ih =>
    rw [List.foldlM_cons] at h
    obtain ⟨s₁, hs₁, h⟩ := Option.bind_eq_some_iff.mp h
    obtain ⟨hi, his⟩ := List.forall_mem_cons.mp his
    exact ih his (hs.step hi hs₁) h

/-- What is read is in range. -/
theorem inRange_of_readRecords? {limit : ℕ} {bs : Bytes} {rs : Records}
    (h : readRecords? limit bs = some rs) : recordsInRange rs := by
  unfold readRecords? at h
  split at h
  · next records hfold =>
    obtain rfl := Option.some.inj h
    obtain ⟨is, his, hfold⟩ := Option.bind_eq_some_iff.mp hfold
    have hstart : State.InRange ⟨[], []⟩ := ⟨trivial, by simp⟩
    have hend := hstart.foldlM (inRange_of_items? his) hfold
    exact recordsInRange_iff.mpr fun r hr =>
      recordsInRange_iff.mp hend.records r (List.mem_reverse.mp hr)
  · cases h

/-! ### Several numbers in one byte string -/

theorem readVarints?_flatMap {ns : List ℕ} (h : ∀ n ∈ ns, n < 2 ^ 64) :
    readVarints? (ns.flatMap varint) = some ns := by
  induction ns with
  | nil => rw [List.flatMap_nil, readVarints?]
  | cons n ns ih =>
    obtain ⟨hn, hns⟩ := List.forall_mem_cons.mp h
    have hread := readVarint?_varint hn (ns.flatMap varint)
    obtain ⟨b, bs, hbs⟩ := List.exists_cons_of_ne_nil (varint_ne_nil n)
    rw [List.flatMap_cons]
    rw [hbs, List.cons_append] at hread ⊢
    rw [readVarints?]
    split
    · next n' rest hread' =>
      rw [hread] at hread'
      obtain ⟨rfl, rfl⟩ := Prod.mk.inj (Option.some.inj hread')
      rw [ih hns, Option.map_some]
    · next hread' =>
      rw [hread] at hread'
      cases hread'

theorem lt_of_readVarints? {bs : Bytes} {ns : List ℕ} (h : readVarints? bs = some ns) :
    ∀ n ∈ ns, n < 2 ^ 64 := by
  fun_induction readVarints? bs generalizing ns with
  | case1 =>
    obtain rfl := Option.some.inj h
    simp
  | case2 b bs n rest hread ih =>
    obtain ⟨ns', hns', rfl⟩ := Option.map_eq_some_iff.mp h
    exact List.forall_mem_cons.mpr ⟨lt_of_readVarint? hread, ih hns'⟩
  | case3 => cases h

theorem lt_of_readFixed? {width : ℕ} {bs : Bytes} {ns : List ℕ}
    (h : readFixed? width bs = some ns) : ∀ n ∈ ns, n < 256 ^ width := by
  fun_induction readFixed? width bs generalizing ns with
  | case1 =>
    obtain rfl := Option.some.inj h
    simp
  | case2 b bs hwidth ih =>
    obtain ⟨ns', hns', rfl⟩ := Option.map_eq_some_iff.mp h
    refine List.forall_mem_cons.mpr ⟨?_, ih hns'⟩
    have hlt := unfixed_lt ((b :: bs).take width)
    rwa [List.length_take_of_le (by rw [List.length_cons]; exact hwidth.2)] at hlt
  | case3 => cases h

theorem readFixed?_flatMap {width : ℕ} (hwidth : 0 < width) {ns : List ℕ}
    (h : ∀ n ∈ ns, n < 256 ^ width) :
    readFixed? width (ns.flatMap (fixed width)) = some ns := by
  induction ns with
  | nil => rw [List.flatMap_nil, readFixed?]
  | cons n ns ih =>
    obtain ⟨hn, hns⟩ := List.forall_mem_cons.mp h
    have hlength := length_fixed width n
    obtain ⟨b, bs, hbs⟩ := List.exists_cons_of_length_pos (hlength ▸ hwidth)
    rw [List.flatMap_cons]
    have htake : (fixed width n ++ ns.flatMap (fixed width)).take width = fixed width n := by
      rw [List.take_append_of_le_length hlength.ge, List.take_of_length_le hlength.le]
    have hdrop : (fixed width n ++ ns.flatMap (fixed width)).drop width
        = ns.flatMap (fixed width) := List.drop_left' hlength
    rw [hbs, List.cons_append] at htake hdrop ⊢
    rw [hbs, List.length_cons] at hlength
    rw [readFixed?, htake, hdrop, ← hbs, unfixed_fixed hn, ih hns, Option.map_some, if_pos]
    rw [List.length_append]
    omega

end Switchboard.Proto.Wire
