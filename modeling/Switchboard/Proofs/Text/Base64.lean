import Mathlib.Data.List.Basic
import Switchboard.Text.Base64

/-!
# Base64 reads back

A byte string is written as its six-bit values, one character each, and as much
padding as fills the last group of four.  Without the padding the characters stand
for the bytes they were written from.

* `sextets`, `encodeChars_eq` — the six-bit values, and how they are written.
* `bytesOf?_sextets` — the bytes come back from them.
* `decode?_unpadded` — they come back from the characters.
-/

namespace Switchboard.Text.Base64

/-! ### The alphabet -/

theorem standard_charOf {n : ℕ} (h : n < 64) : standard (charOf n) = some n := by
  have hall : ∀ n : Fin 64, standard (charOf n) = some n.val := by decide
  exact hall ⟨n, h⟩

theorem charOf_ne_pad {n : ℕ} (h : n < 64) : charOf n ≠ '=' := by
  have hall : ∀ n : Fin 64, charOf n ≠ '=' := by decide
  exact hall ⟨n, h⟩

/-! ### Six-bit values -/

/-- The six-bit values of a byte string; the bits that the last one lacks are zero. -/
def sextets : Bytes → List ℕ
  | [] => []
  | [a] => [a.toNat / 4, a.toNat % 4 * 16]
  | [a, b] => [a.toNat / 4, a.toNat % 4 * 16 + b.toNat / 16, b.toNat % 16 * 4]
  | a :: b :: c :: rest =>
    a.toNat / 4 :: (a.toNat % 4 * 16 + b.toNat / 16) :: (b.toNat % 16 * 4 + c.toNat / 64)
      :: c.toNat % 64 :: sextets rest

/-- The length of the padding. -/
def padding : Bytes → ℕ
  | [] => 0
  | [_] => 2
  | [_, _] => 1
  | _ :: _ :: _ :: rest => padding rest

theorem lt_of_mem_sextets {bs : Bytes} {n : ℕ} (h : n ∈ sextets bs) : n < 64 := by
  induction bs using sextets.induct with
  | case1 => simp [sextets] at h
  | case2 a =>
    have ha := a.toNat_lt
    simp only [sextets, List.mem_cons, List.not_mem_nil, or_false] at h
    omega
  | case3 a b =>
    have ha := a.toNat_lt
    have hb := b.toNat_lt
    simp only [sextets, List.mem_cons, List.not_mem_nil, or_false] at h
    omega
  | case4 a b c rest ih =>
    have ha := a.toNat_lt
    have hb := b.toNat_lt
    have hc := c.toNat_lt
    simp only [sextets, List.mem_cons] at h
    rcases h with h | h | h | h | h
    · omega
    · omega
    · omega
    · omega
    · exact ih h

theorem encodeChars_eq (bs : Bytes) :
    encodeChars bs = (sextets bs).map charOf ++ List.replicate (padding bs) '=' := by
  induction bs using sextets.induct with
  | case1 => rfl
  | case2 a => rfl
  | case3 a b => rfl
  | case4 a b c rest ih => rw [encodeChars, ih]; rfl

/-- The padding fills the last group. -/
theorem length_sextets (bs : Bytes) :
    padding bs = 0 ∨ padding bs < 3 ∧ (sextets bs).length % 4 + padding bs = 4 := by
  induction bs using sextets.induct with
  | case1 => simp [padding]
  | case2 a => simp [padding, sextets]
  | case3 a b => simp [padding, sextets]
  | case4 a b c rest ih =>
    simp only [padding, sextets, List.length_cons]
    omega

/-- A byte is put together from the bits before and after a border. -/
theorem ofNat_join {n : ℕ} {a : UInt8} (h : n % 256 = a.toNat) : UInt8.ofNat n = a := by
  apply UInt8.toNat_inj.mp
  rw [UInt8.toNat_ofNat', ← h]

theorem bytesOf?_sextets (bs : Bytes) : bytesOf? (sextets bs) = some bs := by
  induction bs using sextets.induct with
  | case1 => rfl
  | case2 a =>
    have ha := a.toNat_lt
    have h₁ : UInt8.ofNat (4 * (a.toNat / 4) + a.toNat % 4 * 16 / 16) = a :=
      ofNat_join (by omega)
    rw [sextets, bytesOf?, h₁]
  | case3 a b =>
    have ha := a.toNat_lt
    have hb := b.toNat_lt
    have h₁ : UInt8.ofNat (4 * (a.toNat / 4) + (a.toNat % 4 * 16 + b.toNat / 16) / 16) = a :=
      ofNat_join (by omega)
    have h₂ : UInt8.ofNat (16 * (a.toNat % 4 * 16 + b.toNat / 16) + b.toNat % 16 * 4 / 4) = b :=
      ofNat_join (by omega)
    rw [sextets, bytesOf?, h₁, h₂]
  | case4 a b c rest ih =>
    have ha := a.toNat_lt
    have hb := b.toNat_lt
    have hc := c.toNat_lt
    have h₁ : UInt8.ofNat (4 * (a.toNat / 4) + (a.toNat % 4 * 16 + b.toNat / 16) / 16) = a :=
      ofNat_join (by omega)
    have h₂ : UInt8.ofNat (16 * (a.toNat % 4 * 16 + b.toNat / 16)
        + (b.toNat % 16 * 4 + c.toNat / 64) / 4) = b :=
      ofNat_join (by omega)
    have h₃ : UInt8.ofNat (64 * (b.toNat % 16 * 4 + c.toNat / 64) + c.toNat % 64) = c :=
      ofNat_join (by omega)
    rw [sextets, bytesOf?, ih, Option.map_some, h₁, h₂, h₃]

/-! ### Characters -/

/-- Only the padding is taken away. -/
theorem unpadded_encodeChars (bs : Bytes) :
    unpadded (encodeChars bs) = (sextets bs).map charOf := by
  have hpad : ∀ c ∈ List.replicate (padding bs) '=', (fun c => decide (c = '=')) c = true := by
    intro c hc
    simpa using List.eq_of_mem_replicate hc
  have hkeep : ((sextets bs).map charOf).reverse.dropWhile (fun c => decide (c = '='))
      = ((sextets bs).map charOf).reverse := by
    cases hrev : ((sextets bs).map charOf).reverse with
    | nil => rfl
    | cons c cs =>
      have hc : c ∈ (sextets bs).map charOf := by
        rw [← List.mem_reverse, hrev]
        exact List.mem_cons_self
      obtain ⟨n, hn, rfl⟩ := List.mem_map.mp hc
      exact List.dropWhile_cons_of_neg (by simpa using charOf_ne_pad (lt_of_mem_sextets hn))
  rw [unpadded, encodeChars_eq, List.reverse_append, List.reverse_replicate,
    List.dropWhile_append_of_pos hpad, hkeep, List.reverse_reverse]

theorem decode?_unpadded (bs : Bytes) :
    decode? standard ((sextets bs).map charOf) = some bs := by
  have hread : ∀ ns : List ℕ, (∀ n ∈ ns, n < 64) → (ns.map charOf).mapM standard = some ns := by
    intro ns hns
    induction ns with
    | nil => rfl
    | cons n ns ih =>
      obtain ⟨hn, hns⟩ := List.forall_mem_cons.mp hns
      rw [List.map_cons, List.mapM_cons, standard_charOf hn, ih hns]
      rfl
  rw [decode?, hread _ fun _ => lt_of_mem_sextets]
  exact bytesOf?_sextets bs

end Switchboard.Text.Base64
