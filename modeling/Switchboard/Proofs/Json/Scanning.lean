import Mathlib.Data.Nat.Basic
import Switchboard.Json.Printer
import Switchboard.Json.Token

/-!
# Numbers and quoted texts read back

A printed integer and a quoted text are one token each, with the integer or the text as
its value.  A number has no end of its own, so what follows it matters; a text ends at its
quote.

## Main definitions

* `Closes` — what may follow a number.
* `Token.Spells` — characters that are one token wherever they stand.

## Main results

* `Number.absorb_digitsOf` — the digits of an integer are taken up as that integer.
* `Token.spells_renderInt` — **an integer of sixty-four bits is one number.**
* `Token.spells_quote` — **a quoted text is one text**, whatever characters it holds.
-/

namespace Switchboard.Json

open Text.Ascii (isDigit numberOf)

/-! ### Digits -/

namespace Number

theorem isDigit_of_mem_digitsOf {n : ℕ} {c : Char} (h : c ∈ digitsOf n) : isDigit c = true := by
  have hdigit := Nat.isDigit_of_mem_toDigits (by decide) (by decide) h
  simp only [Char.isDigit, Bool.and_eq_true, decide_eq_true_eq] at hdigit
  simp only [isDigit, Bool.and_eq_true, decide_eq_true_eq]
  exact hdigit

theorem numberOf_digitsOf (n : ℕ) : numberOf (digitsOf n) = n :=
  Nat.ofDigitChars_toDigits (by decide) (by decide)

theorem digitsOf_ne_nil (n : ℕ) : digitsOf n ≠ [] := Nat.toDigits_ne_nil

/-- No number but zero has a zero for its first digit. -/
theorem head?_digitsOf {n : ℕ} (h : 0 < n) : (digitsOf n).head? ≠ some '0' := by
  induction n using Nat.strongRecOn with
  | ind n ih =>
    by_cases hn : n < 10
    · have hall : ∀ i : Fin 10, 0 < i.val → Nat.digitChar i ≠ '0' := by decide
      rw [digitsOf, Nat.toDigits_of_lt_base hn, List.head?_cons, ne_eq, Option.some.injEq]
      exact hall ⟨n, hn⟩ h
    · have hfront := ih (n / 10) (by omega) (by omega)
      rw [digitsOf, Nat.toDigits_of_base_le (by decide) (by omega), List.head?_append]
      cases hc : (Nat.toDigits 10 (n / 10)).head? with
      | none => exact absurd (List.head?_eq_none_iff.mp hc) Nat.toDigits_ne_nil
      | some c =>
        rw [digitsOf, hc] at hfront
        exact hfront

/-- Digits as a number has them: there is one, and none stands after a leading zero. -/
theorem digitsOf_proper (n : ℕ) :
    ¬ (digitsOf n = [] ∨ ((digitsOf n).head? = some '0' ∧ (digitsOf n).length ≠ 1)) := by
  rintro (hnil | ⟨hhead, hlength⟩)
  · exact digitsOf_ne_nil n hnil
  · rcases Nat.eq_zero_or_pos n with rfl | hpos
    · exact hlength rfl
    · exact head?_digitsOf hpos hhead

theorem le_foldl_digits (cs : List Char) (m : ℕ) :
    m ≤ cs.foldl (fun n c => 10 * n + (c.toNat - 48)) m := by
  induction cs generalizing m with
  | nil => exact Nat.le_refl m
  | cons c cs ih =>
    have hnext := ih (10 * m + (c.toNat - 48))
    rw [List.foldl_cons]
    omega

/-- Digits are all taken up as long as their number fits. -/
theorem absorb_eq {cs : List Char} {m : ℕ}
    (h : cs.foldl (fun n c => 10 * n + (c.toNat - 48)) m < 2 ^ 64) :
    absorb m cs = (cs.foldl (fun n c => 10 * n + (c.toNat - 48)) m, 0) := by
  induction cs generalizing m with
  | nil => rfl
  | cons c cs ih =>
    rw [List.foldl_cons] at h ⊢
    have hnext : 10 * m + (c.toNat - 48) < 2 ^ 64 := Nat.lt_of_le_of_lt (le_foldl_digits cs _) h
    rw [absorb]
    exact (if_pos hnext).trans (ih h)

theorem absorb_digitsOf {n : ℕ} (h : n < 2 ^ 64) : absorb 0 (digitsOf n) = (n, 0) := by
  have hnumber : (digitsOf n).foldl (fun n c => 10 * n + (c.toNat - 48)) 0 = n :=
    numberOf_digitsOf n
  rw [absorb_eq (by rwa [hnumber]), hnumber]

/-- The digits of an integer and its sign have that integer as their value. -/
theorem ofParts_digitsOf {i : Int} (hmin : minInteger ≤ i) (hmax : i ≤ maxInteger) :
    ofParts (decide (i < 0)) (digitsOf i.natAbs) none none = some (.int i) := by
  rw [minInteger] at hmin
  rw [maxInteger] at hmax
  have hfits : i.natAbs < 2 ^ 64 := by omega
  simp only [ofParts, absorb_digitsOf hfits, ne_eq, not_true_eq_false, if_false]
  by_cases hneg : i < 0
  · have hsize : ¬ (i.natAbs = 0 ∨ 2 ^ 63 < i.natAbs) := by omega
    have hvalue : -(i.natAbs : Int) = i := by omega
    rw [decide_eq_true hneg, if_neg (by decide), if_neg hsize, hvalue]
  · have hvalue : (i.natAbs : Int) = i := by omega
    rw [decide_eq_false hneg, if_pos rfl, hvalue]

end Number

/-! ### Tokens -/

/-- What may follow a number: the end of the text, or a character that cannot belong to
it. -/
def Closes (rest : List Char) : Prop :=
  ∀ c ∈ rest.head?, isDigit c = false ∧ c ≠ '.' ∧ c ≠ 'e' ∧ c ≠ 'E'

theorem closes_nil : Closes [] := by
  rintro c ⟨⟩

theorem closes_cons {c : Char} (h : isDigit c = false ∧ c ≠ '.' ∧ c ≠ 'e' ∧ c ≠ 'E')
    (cs : List Char) : Closes (c :: cs) := by
  rintro d ⟨⟩
  exact h

theorem closes_renderElements (xs : List Value) (rest : List Char) :
    Closes (Value.renderElements xs ++ rest) := by
  cases xs with
  | nil => exact closes_cons (by decide) rest
  | cons x xs => exact closes_cons (by decide) _

theorem closes_renderMembers (ms : List (String × Value)) (rest : List Char) :
    Closes (Value.renderMembers ms ++ rest) := by
  cases ms with
  | nil => exact closes_cons (by decide) rest
  | cons m ms => exact closes_cons (by decide) _

namespace Token

/-- The characters are one token, which ends with them. -/
def Spells (cs : List Char) (t : Token) : Prop :=
  ∃ c w, cs = c :: w ∧ isSpace c = false
    ∧ ∀ rest, Closes rest → scan c (w ++ rest) = some (t, rest)

/-! ### Words -/

theorem spells_null : Spells ['n', 'u', 'l', 'l'] .null :=
  ⟨'n', ['u', 'l', 'l'], rfl, rfl, fun _ _ => rfl⟩

theorem spells_true : Spells ['t', 'r', 'u', 'e'] (.bool true) :=
  ⟨'t', ['r', 'u', 'e'], rfl, rfl, fun _ _ => rfl⟩

theorem spells_false : Spells ['f', 'a', 'l', 's', 'e'] (.bool false) :=
  ⟨'f', ['a', 'l', 's', 'e'], rfl, rfl, fun _ _ => rfl⟩

/-! ### Numbers -/

theorem digits_append {ds rest : List Char} (hds : ∀ c ∈ ds, isDigit c = true)
    (hrest : Closes rest) : digits (ds ++ rest) = (ds, rest) := by
  rw [digits, List.takeWhile_append_of_pos hds, List.dropWhile_append_of_pos hds]
  cases rest with
  | nil => rw [List.takeWhile_nil, List.dropWhile_nil, List.append_nil]
  | cons c rest =>
    have hc : ¬ isDigit c = true := Bool.eq_false_iff.mp (hrest c rfl).1
    rw [List.takeWhile_cons_of_neg hc, List.dropWhile_cons_of_neg hc, List.append_nil]

theorem fraction_of_closes {rest : List Char} (h : Closes rest) :
    fraction rest = some (none, rest) := by
  unfold fraction
  split
  · exact absurd rfl (h '.' rfl).2.1
  · rfl

theorem exponent_of_closes {rest : List Char} (h : Closes rest) :
    exponent rest = some (none, rest) := by
  unfold exponent
  split
  · exact absurd rfl (h 'e' rfl).2.2.1
  · exact absurd rfl (h 'E' rfl).2.2.2
  · rfl

theorem scanNumber_digitsOf {i : Int} (hmin : minInteger ≤ i) (hmax : i ≤ maxInteger)
    {rest : List Char} (hrest : Closes rest) :
    scanNumber (decide (i < 0)) (Number.digitsOf i.natAbs ++ rest)
      = some (.number (some (.int i)), rest) := by
  have hdigits : ∀ c ∈ Number.digitsOf i.natAbs, isDigit c = true :=
    fun _ hc => Number.isDigit_of_mem_digitsOf hc
  simp only [scanNumber, digits_append hdigits hrest, if_neg (Number.digitsOf_proper _),
    fraction_of_closes hrest, Option.bind_eq_bind, Option.bind_some, exponent_of_closes hrest,
    Number.ofParts_digitsOf hmin hmax]
  rfl

/-- What starts with a digit is a number. -/
theorem scan_digit {c : Char} (h : isDigit c = true) (cs : List Char) :
    scan c cs = scanNumber false (c :: cs) := by
  unfold scan
  split
  case h_12 => exact if_pos h
  all_goals exact absurd h (by decide)

theorem isSpace_digit {c : Char} (h : isDigit c = true) : isSpace c = false := by
  rw [Bool.eq_false_iff]
  intro hspace
  simp only [isSpace, Bool.or_eq_true, decide_eq_true_eq] at hspace
  rcases hspace with ((rfl | rfl) | rfl) | rfl
  all_goals exact absurd h (by decide)

/-- An integer of sixty-four bits is one number. -/
theorem spells_renderInt {i : Int} (hmin : minInteger ≤ i) (hmax : i ≤ maxInteger) :
    Spells (Number.renderInt i) (.number (some (.int i))) := by
  by_cases hneg : i < 0
  · refine ⟨'-', Number.digitsOf i.natAbs, if_pos hneg, rfl, fun rest hrest => ?_⟩
    have hscan := scanNumber_digitsOf hmin hmax hrest
    rw [decide_eq_true hneg] at hscan
    exact hscan
  · cases hds : Number.digitsOf i.natAbs with
    | nil => exact absurd hds (Number.digitsOf_ne_nil _)
    | cons c w =>
      have hc : isDigit c = true :=
        Number.isDigit_of_mem_digitsOf (n := i.natAbs) (hds ▸ List.mem_cons_self)
      refine ⟨c, w, (if_neg hneg).trans hds, isSpace_digit hc, fun rest hrest => ?_⟩
      have hscan := scanNumber_digitsOf hmin hmax hrest
      rw [decide_eq_false hneg, hds] at hscan
      exact (scan_digit hc _).trans hscan

/-! ### Quoted texts -/

/-- A character that stands as itself between quotes. -/
theorem body_plain {c : Char} (hquote : c ≠ '"') (hslash : c ≠ '\\') (hcontrol : 0x20 ≤ c.toNat)
    (rest : List Char) : body (c :: rest) = (body rest).map fun r => (c :: r.1, r.2) := by
  rw [body.eq_def]
  split
  · next heq => cases heq
  · next heq => exact absurd (List.cons.inj heq).1 hslash
  · next heq =>
    obtain ⟨rfl, rfl⟩ := List.cons.inj heq
    rw [if_neg hquote, if_neg (by omega)]

/-- The escape of a control character. -/
theorem body_control {m : ℕ} (h : m < 0x20) (rest : List Char) :
    body ('\\' :: 'u' :: '0' :: '0' :: Text.Hex.digit (m / 16) :: Text.Hex.digit (m % 16) :: rest)
      = (body rest).map fun r => ('\\' :: 'u' :: '0' :: '0' :: Text.Hex.digit (m / 16)
          :: Text.Hex.digit (m % 16) :: r.1, r.2) := by
  have hdigit : ∀ i < 16, Text.Hex.digit i ≠ '"' ∧ Text.Hex.digit i ≠ '\\'
      ∧ 0x20 ≤ (Text.Hex.digit i).toNat := by decide
  obtain ⟨hquote, hslash, hcontrol⟩ := hdigit (m / 16) (by omega)
  obtain ⟨hquote', hslash', hcontrol'⟩ := hdigit (m % 16) (by omega)
  rw [body, body_plain (by decide) (by decide) (by decide),
    body_plain (by decide) (by decide) (by decide), body_plain hquote hslash hcontrol,
    body_plain hquote' hslash' hcontrol']
  cases body rest <;> rfl

theorem body_escape (c : Char) (rest : List Char) :
    body (escape c ++ rest) = (body rest).map fun r => (escape c ++ r.1, r.2) := by
  have hshort : ∀ (d : Char) (rest : List Char), body ('\\' :: d :: rest)
      = (body rest).map fun r => ('\\' :: d :: r.1, r.2) := fun d rest => by rw [body]
  unfold escape
  split
  case h_8 hquote hslash _ _ _ _ _ =>
    split
    · next hcontrol => exact body_control hcontrol rest
    · next hcontrol => exact body_plain hquote hslash (by omega) rest
  all_goals exact hshort _ rest

/-- What is between the quotes ends at the quote that was written. -/
theorem body_quoted (cs rest : List Char) :
    body (cs.flatMap escape ++ '"' :: rest) = some (cs.flatMap escape, rest) := by
  induction cs with
  | nil => rfl
  | cons c cs ih =>
    rw [List.flatMap_cons, List.append_assoc, body_escape, ih]
    rfl

theorem pieces_short {c e : Char} (h : shortEscape? c = some e) (rest : List Char) :
    pieces ('\\' :: c :: rest) = (pieces rest).map (.char e :: ·) := by
  have hu : c ≠ 'u' := by
    rintro rfl
    cases h
  rw [pieces, h]
  · cases pieces rest <;> rfl
  · exact fun _ _ _ _ _ hc _ => hu hc

theorem pieces_unit {a b c d : Char} {n : ℕ} (h : unitOf a b c d = some n) (rest : List Char) :
    pieces ('\\' :: 'u' :: a :: b :: c :: d :: rest) = (pieces rest).map (.unit n :: ·) := by
  rw [pieces, h]
  cases pieces rest <;> rfl

theorem pieces_plain {c : Char} (h : c ≠ '\\') (rest : List Char) :
    pieces (c :: rest) = (pieces rest).map (.char c :: ·) := by
  rw [pieces, if_neg h]
  · exact fun _ _ _ _ _ hc _ => h hc
  · exact fun _ _ hc _ => h hc

theorem unitOf_control {m : ℕ} (h : m < 0x20) :
    unitOf '0' '0' (Text.Hex.digit (m / 16)) (Text.Hex.digit (m % 16)) = some m := by
  have hall : ∀ i < 0x20,
      unitOf '0' '0' (Text.Hex.digit (i / 16)) (Text.Hex.digit (i % 16)) = some i := by decide
  exact hall m h

/-- A unit below the surrogates is a character of its own. -/
theorem join_unit {m : ℕ} (h : m < 0xD800) (ps : List Piece) :
    join (.unit m :: ps) = (join ps).map (Char.ofNat m :: ·) := by
  have hleading : isLeading m = false := by
    rw [isLeading, decide_eq_false (by omega), Bool.false_and]
  have htrailing : isTrailing m = false := by
    rw [isTrailing, decide_eq_false (by omega), Bool.false_and]
  cases ps with
  | nil => simp [join, hleading, htrailing]
  | cons p ps =>
    cases p with
    | char c => simp [join, hleading, htrailing]
    | unit n => simp [join, hleading, htrailing]

/-- Every character is read as one piece, which stands for it. -/
theorem exists_piece (c : Char) :
    ∃ p, (∀ rest, pieces (escape c ++ rest) = (pieces rest).map (p :: ·))
      ∧ ∀ ps, join (p :: ps) = (join ps).map (c :: ·) := by
  have hchar : ∀ ps, join (.char c :: ps) = (join ps).map (c :: ·) := fun _ => by rw [join]
  unfold escape
  split
  case h_8 hslash _ _ _ _ _ =>
    split
    · next hcontrol =>
      refine ⟨.unit c.toNat, fun rest => pieces_unit (unitOf_control hcontrol) rest, fun ps => ?_⟩
      rw [join_unit (by omega), Char.ofNat_toNat]
    · exact ⟨.char c, fun rest => pieces_plain hslash rest, hchar⟩
  all_goals exact ⟨_, fun rest => pieces_short rfl rest, hchar⟩

/-- The pieces of an escaped text stand for its characters. -/
theorem exists_pieces (cs : List Char) :
    ∃ ps, pieces (cs.flatMap escape) = some ps ∧ join ps = some cs := by
  induction cs with
  | nil => exact ⟨[], rfl, rfl⟩
  | cons c cs ih =>
    obtain ⟨ps, hpieces, hjoin⟩ := ih
    obtain ⟨p, hread, hstands⟩ := exists_piece c
    refine ⟨p :: ps, ?_, ?_⟩
    · rw [List.flatMap_cons, hread, hpieces]
      rfl
    · rw [hstands, hjoin]
      rfl

/-- A quoted text is one text. -/
theorem spells_quote (s : String) : Spells (quote s) (.string (some s)) := by
  refine ⟨'"', s.toList.flatMap escape ++ ['"'], rfl, rfl, fun rest _ => ?_⟩
  obtain ⟨ps, hpieces, hjoin⟩ := exists_pieces s.toList
  rw [List.append_assoc]
  show scanString (s.toList.flatMap escape ++ '"' :: rest) = _
  rw [scanString, body_quoted]
  simp only [Option.bind_eq_bind, Option.bind_some, hpieces, hjoin, Option.map_some,
    String.ofList_toList]
  rfl

end Token

end Switchboard.Json
