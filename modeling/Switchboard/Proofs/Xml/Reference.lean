import Switchboard.Proofs.Text.Utf8
import Switchboard.Proofs.Xml.Grammar
import Switchboard.Xml.Reference

/-!
# Reading references back

Character data says what its pieces stand for, however each is written; and what
the writer escapes is such character data.

## Main results

* `unescape_print` — **the references in character data are all replaced by what
  they stand for**.
* `textOf?_print` — the same from the bytes of a document.
* `exists_whole_of_textOf?` — character data that is cut short can be read only if the cut
  is between two of its pieces.
* `escapeChars_eq_print` — what the writer escapes is character data that says the
  same.
-/

namespace Switchboard.Xml

open Text (Utf8.encodeChars Utf8.decodeChars?_encodeChars Utf8.isPrefix_of_decodeChars?)

/-! ### What a reference stands for -/

theorem charOfNumber?_toNat {c : Char} (h : c ≠ '\x00') : charOfNumber? c.toNat = some c := by
  have hne : c.toNat ≠ 0 := fun h0 => h (Char.toNat_inj.mp h0)
  rw [charOfNumber?, if_pos ⟨hne, c.valid⟩, Char.ofNat_toNat]

theorem isDigit_digitChar : ∀ d : Fin 10, Text.Ascii.isDigit (Nat.digitChar d.val) = true := by
  decide

theorem toNat_digitChar : ∀ d : Fin 10, (Nat.digitChar d.val).toNat - 48 = d.val := by decide

theorem value?_hexDigit (d : Fin 16 × Bool) : Text.Hex.value? (hexDigit d) = some d.1.val :=
  (by decide : ∀ (d : Fin 16) (b : Bool), Text.Hex.value? (hexDigit (d, b)) = some d.val) d.1 d.2

theorem decimalNumber?_digits {ds : List (Fin 10)} (h : ds ≠ []) :
    decimalNumber? (ds.map fun d => Nat.digitChar d.val)
      = some (numberOfDigits 10 (ds.map Fin.val)) := by
  have hall : (ds.map fun d => Nat.digitChar d.val).all Text.Ascii.isDigit = true := by
    rw [List.all_map, List.all_eq_true]
    exact fun d _ => isDigit_digitChar d
  have hnot : ¬ ((ds.map fun d => Nat.digitChar d.val) = [] ∨
      (ds.map fun d => Nat.digitChar d.val).all Text.Ascii.isDigit = false) := by
    rw [hall]
    simpa using h
  rw [decimalNumber?, if_neg hnot, Text.Ascii.numberOf, numberOfDigits, List.foldl_map,
    List.foldl_map]
  simp only [toNat_digitChar]

theorem hexNumber?_digits {ds : List (Fin 16 × Bool)} (h : ds ≠ []) :
    hexNumber? (ds.map hexDigit) = some (numberOfDigits 16 (ds.map fun d => d.1.val)) := by
  have hfold : ∀ n : ℕ, (ds.map hexDigit).foldlM
      (fun n c => do return 16 * n + (← Text.Hex.value? c)) n
        = some ((ds.map fun d => d.1.val).foldl (fun n d => 16 * n + d) n) := by
    clear h
    induction ds with
    | nil => exact fun n => rfl
    | cons d ds ih =>
      intro n
      rw [List.map_cons, List.foldlM_cons, value?_hexDigit]
      exact ih (16 * n + d.1.val)
  rw [hexNumber?, if_neg (by simpa using h), hfold, numberOfDigits]

theorem ne_nil_of_numberOfDigits {base : ℕ} {ds : List ℕ} {c : Char} (h : c ≠ '\x00')
    (hds : numberOfDigits base ds = c.toNat) : ds ≠ [] := by
  rintro rfl
  exact h (Char.toNat_inj.mp hds.symm)

theorem referent?_decimal {c : Char} {ds : List (Fin 10)} (h : c ≠ '\x00')
    (hds : numberOfDigits 10 (ds.map Fin.val) = c.toNat) :
    referent? ('#' :: ds.map fun d => Nat.digitChar d.val) = some c := by
  have hne : ds ≠ [] := fun h0 => ne_nil_of_numberOfDigits h hds (by rw [h0]; rfl)
  have hnumber := decimalNumber?_digits hne
  obtain ⟨d, ds, rfl⟩ := List.exists_cons_of_ne_nil hne
  have hx : Nat.digitChar d.val ≠ 'x' := (by decide : ∀ d : Fin 10, Nat.digitChar d.val ≠ 'x') d
  rw [List.map_cons] at hnumber ⊢
  rw [referent?, hnumber, hds, Option.bind_some, charOfNumber?_toNat h]
  exact fun ds' h' => hx (List.cons.inj h').1

theorem referent?_hexadecimal {c : Char} {ds : List (Fin 16 × Bool)} (h : c ≠ '\x00')
    (hds : numberOfDigits 16 (ds.map fun d => d.1.val) = c.toNat) :
    referent? ('#' :: 'x' :: ds.map hexDigit) = some c := by
  have hne : ds ≠ [] := fun h0 => ne_nil_of_numberOfDigits h hds (by rw [h0]; rfl)
  rw [referent?, hexNumber?_digits hne, hds, Option.bind_some, charOfNumber?_toNat h]

theorem referent?_name (e : Entity) : referent? e.name = some e.char := by
  cases e <;> rfl

/-! ### Where a reference ends -/

theorem referenceBody_eq {name rest : List Char} (h : ∀ c ∈ name, c ≠ ';' ∧ c ≠ '&') :
    referenceBody (name ++ ';' :: rest) = some (name, rest) := by
  induction name with
  | nil => rfl
  | cons c name ih =>
    obtain ⟨hc, hname⟩ := List.forall_mem_cons.mp h
    rw [List.cons_append, referenceBody, if_neg hc.1, if_neg hc.2, ih hname]
    rfl

/-- The characters unescape to others, with any fuel that is enough. -/
def Unescapes (cs rs : List Char) : Prop :=
  ∀ fuel, cs.length ≤ fuel → unescapeFrom fuel cs = some rs

theorem Unescapes.nil : Unescapes [] [] := fun fuel _ => by
  cases fuel <;> rfl

theorem Unescapes.plain {c : Char} {cs rs : List Char} (h : Unescapes cs rs) (hc : c ≠ '&') :
    Unescapes (c :: cs) (c :: rs) := by
  intro fuel hfuel
  cases fuel with
  | zero => exact absurd hfuel (Nat.not_succ_le_zero _)
  | succ fuel =>
    rw [unescapeFrom, if_neg hc, h fuel (Nat.le_of_succ_le_succ hfuel)]
    rfl

theorem Unescapes.reference {cs rs : List Char} {r : Char} (name : List Char) (h : Unescapes cs rs)
    (hname : ∀ c ∈ name, c ≠ ';' ∧ c ≠ '&') (hr : referent? name = some r) :
    Unescapes ('&' :: name ++ [';'] ++ cs) (r :: rs) := by
  intro fuel hfuel
  cases fuel with
  | zero => exact absurd hfuel (Nat.not_succ_le_zero _)
  | succ fuel =>
    have hle : cs.length ≤ fuel := by
      simp only [List.cons_append, List.length_cons, List.length_append, List.length_nil] at hfuel
      omega
    rw [List.append_assoc, List.cons_append, unescapeFrom, if_pos rfl, List.singleton_append,
      referenceBody_eq hname]
    simp [hr, h fuel hle]

/-! ### Character data -/

theorem Piece.unescapes (p : Piece) {cs rs : List Char} (h : Unescapes cs rs) :
    Unescapes (p.print ++ cs) (p.char :: rs) := by
  cases p with
  | plain c hc => exact h.plain hc.2
  | named e =>
    refine h.reference e.name ?_ (referent?_name e)
    cases e <;> simp [Entity.name]
  | decimal c ds hc hds =>
    refine h.reference ('#' :: ds.map fun d => Nat.digitChar d.val) ?_
      (referent?_decimal hc hds)
    refine List.forall_mem_cons.mpr ⟨by decide, List.forall_mem_map.mpr fun d _ => ?_⟩
    exact (by decide : ∀ d : Fin 10, Nat.digitChar d.val ≠ ';' ∧ Nat.digitChar d.val ≠ '&') d
  | hexadecimal c ds hc hds =>
    refine h.reference ('#' :: 'x' :: ds.map hexDigit) ?_ (referent?_hexadecimal hc hds)
    refine List.forall_mem_cons.mpr ⟨by decide, List.forall_mem_cons.mpr ⟨by decide, ?_⟩⟩
    refine List.forall_mem_map.mpr fun d _ => ?_
    exact (by decide : ∀ (d : Fin 16) (b : Bool), hexDigit (d, b) ≠ ';' ∧ hexDigit (d, b) ≠ '&')
      d.1 d.2

/-- **The references in character data are all replaced by what they stand for.** -/
theorem unescape_print (t : CharData) : unescape t.print = some t.chars := by
  have h : Unescapes t.print t.chars := by
    induction t with
    | nil => exact Unescapes.nil
    | cons p t ih => exact p.unescapes ih
  exact h _ (Nat.le_refl _)

/-- No characters are written only if none are meant. -/
theorem CharData.chars_eq_nil {t : CharData} (h : t.print = []) : t.chars = [] := by
  have hread := unescape_print t
  rw [h] at hread
  exact (Option.some.inj hread).symm

theorem textOf?_print (t : CharData) : textOf? (Utf8.encodeChars t.print) = some t.chars := by
  rw [textOf?, Utf8.decodeChars?_encodeChars]
  exact unescape_print t

/-! ### Character data that is cut short -/

/-- A piece is a character or a reference. -/
theorem Piece.print_cases (p : Piece) :
    (∃ c, c ≠ '&' ∧ p.print = [c]) ∨
      ∃ name, (∀ c ∈ name, c ≠ ';' ∧ c ≠ '&') ∧ p.print = '&' :: (name ++ [';']) := by
  cases p with
  | plain c h => exact .inl ⟨c, h.2, rfl⟩
  | named e =>
    refine .inr ⟨e.name, ?_, rfl⟩
    cases e <;> simp [Entity.name]
  | decimal c ds =>
    refine .inr ⟨'#' :: ds.map fun d => Nat.digitChar d.val, ?_, by simp [Piece.print]⟩
    refine List.forall_mem_cons.mpr ⟨by decide, List.forall_mem_map.mpr fun d _ => ?_⟩
    exact (by decide : ∀ d : Fin 10, Nat.digitChar d.val ≠ ';' ∧ Nat.digitChar d.val ≠ '&') d
  | hexadecimal c ds =>
    refine .inr ⟨'#' :: 'x' :: ds.map hexDigit, ?_, by simp [Piece.print]⟩
    refine List.forall_mem_cons.mpr ⟨by decide, List.forall_mem_cons.mpr ⟨by decide, ?_⟩⟩
    refine List.forall_mem_map.mpr fun d _ => ?_
    exact (by decide : ∀ (d : Fin 16) (b : Bool), hexDigit (d, b) ≠ ';' ∧ hexDigit (d, b) ≠ '&')
      d.1 d.2

/-- A reference without its semicolon has no body. -/
theorem referenceBody_of_notMem {cs : List Char} (h : ';' ∉ cs) : referenceBody cs = none := by
  induction cs with
  | nil => rfl
  | cons c cs ih =>
    rw [List.mem_cons, not_or] at h
    rw [referenceBody, if_neg (Ne.symm h.1), ih h.2]
    split <;> rfl

/-- What is read behind a piece is read as it is behind nothing. -/
theorem unescapeFrom_of_piece {p : Piece} {cs rs : List Char} {fuel : ℕ}
    (h : unescapeFrom fuel (p.print ++ cs) = some rs) :
    ∃ fuel' rs', unescapeFrom fuel' cs = some rs' := by
  rcases p.print_cases with ⟨c, hc, hprint⟩ | ⟨name, hname, hprint⟩
  · rw [hprint, List.singleton_append] at h
    cases fuel with
    | zero => cases h
    | succ fuel =>
      rw [unescapeFrom, if_neg hc, Option.map_eq_some_iff] at h
      obtain ⟨rs', hrs, -⟩ := h
      exact ⟨fuel, rs', hrs⟩
  · rw [hprint, List.cons_append, List.append_assoc, List.singleton_append] at h
    cases fuel with
    | zero => cases h
    | succ fuel =>
      rw [unescapeFrom, if_pos rfl, referenceBody_eq hname, Option.bind_eq_bind,
        Option.bind_some] at h
      obtain ⟨r, -, h⟩ := Option.bind_eq_some_iff.mp h
      obtain ⟨rs', hrs, -⟩ := Option.bind_eq_some_iff.mp h
      exact ⟨fuel, rs', hrs⟩

/-- The front of a piece is read only if it is nothing. -/
theorem unescapeFrom_front {p : Piece} {cs more : List Char} (hcut : cs ++ more = p.print)
    (hcs : cs ≠ []) (hmore : more ≠ []) (fuel : ℕ) : unescapeFrom fuel cs = none := by
  obtain ⟨c, cs, rfl⟩ := List.exists_cons_of_ne_nil hcs
  cases fuel with
  | zero => rfl
  | succ fuel =>
    rcases p.print_cases with ⟨d, -, hprint⟩ | ⟨name, hname, hprint⟩
    · -- a character has no front
      rw [hprint, List.cons_append, List.cons.injEq] at hcut
      exact absurd (List.append_eq_nil_iff.mp hcut.2).2 hmore
    · rw [hprint, List.cons_append, List.cons.injEq] at hcut
      obtain ⟨rfl, hcut⟩ := hcut
      -- the semicolon is the last character of the reference
      have hnone : ';' ∉ cs := by
        intro hmem
        obtain ⟨l, hl⟩ : ∃ l, more = l ++ [';'] := by
          obtain ⟨l, x, hx⟩ := (List.eq_nil_or_concat more).resolve_left hmore
          rw [hx, List.concat_eq_append, ← List.append_assoc] at hcut
          rw [hx, List.concat_eq_append, (List.append_inj' hcut rfl).2]
          exact ⟨l, rfl⟩
        rw [hl, ← List.append_assoc] at hcut
        have hfront := (List.append_inj' hcut rfl).1
        exact (hname ';' (hfront ▸ List.mem_append_left _ hmem)).1 rfl
      rw [unescapeFrom, if_pos rfl, referenceBody_of_notMem hnone]
      rfl

theorem exists_whole_of_unescapeFrom (t : CharData) :
    ∀ {cs more rs : List Char} {fuel : ℕ}, cs ++ more = t.print →
      unescapeFrom fuel cs = some rs → ∃ whole : CharData, whole <+: t ∧ cs = whole.print := by
  induction t with
  | nil =>
    intro cs more rs fuel hcut _
    exact ⟨[], List.nil_prefix, (List.append_eq_nil_iff.mp hcut).1⟩
  | cons p t ih =>
    intro cs more rs fuel hcut h
    have hprint : cs ++ more = p.print ++ CharData.print t := hcut
    rcases List.append_eq_append_iff.mp hprint with ⟨as, hp, -⟩ | ⟨as, hcs, hrest⟩
    · -- the cut is in the first piece
      by_cases hnil : cs = []
      · exact ⟨[], List.nil_prefix, hnil⟩
      by_cases has : as = []
      · rw [has, List.append_nil] at hp
        exact ⟨[p], List.cons_prefix_cons.mpr ⟨rfl, List.nil_prefix⟩, by simp [CharData.print, hp]⟩
      · rw [unescapeFrom_front hp.symm hnil has] at h
        cases h
    · rw [hcs] at h
      obtain ⟨fuel', rs', h'⟩ := unescapeFrom_of_piece h
      obtain ⟨whole, hwhole, has⟩ := ih hrest.symm h'
      exact ⟨p :: whole, List.cons_prefix_cons.mpr ⟨rfl, hwhole⟩, by rw [hcs, has]; rfl⟩

/-- **Character data that is cut short can be read only if the cut is between two of its
pieces.** -/
theorem exists_whole_of_textOf? {t : CharData} {front back : Bytes} {cs : List Char}
    (hcut : front ++ back = Utf8.encodeChars t.print) (h : textOf? front = some cs) :
    ∃ whole : CharData, whole <+: t ∧ front = Utf8.encodeChars whole.print := by
  obtain ⟨ds, hds, hcs⟩ := Option.bind_eq_some_iff.mp h
  obtain ⟨⟨more, hmore⟩, hfront⟩ := Utf8.isPrefix_of_decodeChars? hcut hds
  obtain ⟨whole, hwhole, rfl⟩ := exists_whole_of_unescapeFrom t hmore hcs
  exact ⟨whole, hwhole, hfront⟩

/-! ### Character data without references -/

/-- Character data without references says what is written. -/
theorem unescape_of_notMem {cs : List Char} (h : '&' ∉ cs) : unescape cs = some cs := by
  have hcs : Unescapes cs cs := by
    induction cs with
    | nil => exact Unescapes.nil
    | cons c cs ih =>
      rw [List.mem_cons, not_or] at h
      exact (ih h.2).plain (Ne.symm h.1)
  exact hcs _ (Nat.le_refl _)

theorem textOf?_of_notMem {cs : List Char} (h : '&' ∉ cs) :
    textOf? (Utf8.encodeChars cs) = some cs := by
  rw [textOf?, Utf8.decodeChars?_encodeChars]
  exact unescape_of_notMem h

/-! ### What the writer escapes -/

/-- The piece that the writer puts for a character. -/
def escapedPiece (c : Char) : Piece :=
  if hlt : c = '<' then .named .lt
  else if c = '>' then .named .gt
  else if hamp : c = '&' then .named .amp
  else if c = '\'' then .named .apos
  else if c = '"' then .named .quot
  else .plain c ⟨hlt, hamp⟩

theorem escapeChar_eq_print (c : Char) : escapeChar c = (escapedPiece c).print := by
  unfold escapeChar
  split <;> first | rfl | simp_all [escapedPiece, Piece.print]

theorem char_escapedPiece (c : Char) : (escapedPiece c).char = c := by
  unfold escapedPiece
  repeat' split
  all_goals simp_all [Piece.char, Entity.char]

/-- What the writer escapes is character data. -/
theorem escapeChars_eq_print (cs : List Char) :
    escapeChars cs = CharData.print (cs.map escapedPiece) := by
  rw [escapeChars, CharData.print, List.flatMap_map, funext escapeChar_eq_print]

/-- A character that means something in markup does not stand in what the writer escapes,
an ampersand apart. -/
theorem notMem_escapeChars {d : Char} (hd : d ∈ ['<', '>', '\'', '"']) (cs : List Char) :
    d ∉ escapeChars cs := by
  intro h
  obtain ⟨c, -, hc⟩ := List.mem_flatMap.mp h
  unfold escapeChar at hc
  simp only [List.mem_cons, List.not_mem_nil, or_false] at hd
  split at hc
  case h_6 hlt hgt _ hapos hquot =>
    -- the character itself is none of the four
    obtain rfl := List.mem_singleton.mp hc
    rcases hd with rfl | rfl | rfl | rfl <;> contradiction
  all_goals rcases hd with rfl | rfl | rfl | rfl <;> simp at hc

theorem chars_map_escapedPiece (cs : List Char) :
    CharData.chars (cs.map escapedPiece) = cs := by
  rw [CharData.chars, List.map_map]
  exact (List.map_congr_left fun c _ => char_escapedPiece c).trans (List.map_id cs)

end Switchboard.Xml
