import Switchboard.Http.Rest
import Switchboard.Proofs.Dictionary
import Switchboard.Proofs.Text.Percent

/-!
# Form fields read back

A form is read in pieces between ampersands.  A piece is a name and a value around its
first equals sign; in both a plus sign is a space and an escape is a byte.  What is read
from the body of a form are the fields that were written, whatever characters they hold.

## Main definitions

* `read?` — the fields of a body.
* `fields` — the fields that an object stands for.

## Main results

* `spaced_encodePart` — plus signs aside, names and values are percent-encoded.
* `read?_encode` — the fields of a list that was written.
* `read?_body` — **the fields of an object are read from its body.**
-/

namespace Switchboard.Form

open Json (Value)
open Text

/-! ### Reading forms -/

/-- A plus sign stands for a space. -/
def spaced (b : UInt8) : UInt8 := if b = 0x2B then 0x20 else b

/-- The text of a name or a value. -/
def readPart? (bs : Bytes) : Option String :=
  Utf8.decode? (Percent.decodeBytes (bs.map spaced))

/-- The field of a piece: what is before its first equals sign, and what is after it. -/
def readField? (bs : Bytes) : Option (String × String) := do
  let name ← readPart? (bs.takeWhile (· ≠ 0x3D))
  let value ← readPart? ((bs.dropWhile (· ≠ 0x3D)).drop 1)
  return (name, value)

/-- The fields of a body: those of its pieces between ampersands, of which empty ones are
passed over. -/
def read? (bs : Bytes) : Option (List (String × String)) :=
  ((bs.splitOn 0x26).filter (· ≠ [])).mapM readField?

/-! ### The fields of an object -/

/-- The text that stands for a value: a text as it is, nothing for null, compact JSON for
anything else. -/
def shown : Value → String
  | .string s => s
  | .null => ""
  | v => v.render

/-- The texts that stand for the value of a member: one for each element of an array, one
for any other value. -/
def shownAll : Value → List String
  | .array xs => xs.map shown
  | v => [shown v]

/-- The fields that an object stands for, in the order of its members. -/
def fields (ms : Dictionary Value) : List (String × String) :=
  ms.flatMap fun m => (shownAll m.2).map fun text => (m.1, text)

theorem fieldText_eq (v : Value) : fieldText v = (shown v).toList := by
  cases v with
  | string s => rfl
  | null => rfl
  | _ => exact String.toList_ofList.symm

theorem pairs_eq (ms : Dictionary Value) :
    pairs ms = (fields ms).map fun f => (f.1.toList, f.2.toList) := by
  have hmember : ∀ m : String × Value, memberPairs m
      = ((shownAll m.2).map fun text => (m.1, text)).map fun f => (f.1.toList, f.2.toList) := by
    rintro ⟨k, v⟩
    rw [List.map_map]
    cases v with
    | array xs =>
      rw [shownAll, List.map_map]
      exact List.map_congr_left fun x _ => by rw [fieldText_eq]; rfl
    | _ => exact congrArg (fun text => [(k.toList, text)]) (fieldText_eq _)
  rw [pairs, fields, List.map_flatMap]
  exact List.flatMap_congr fun m _ => hmember m

/-- The fields of an object come in the order of their names. -/
theorem pairwise_fields {ms : Dictionary Value} (h : ms.Ordered) :
    (fields ms).Pairwise fun a b => a.1 ≤ b.1 := by
  refine List.pairwise_flatMap.mpr ⟨fun m _ => ?_, h.imp fun hlt a ha b hb => ?_⟩
  · exact List.pairwise_map.mpr (List.pairwise_of_forall fun _ _ => String.le_refl _)
  · obtain ⟨_, -, rfl⟩ := List.mem_map.mp ha
    obtain ⟨_, -, rfl⟩ := List.mem_map.mp hb
    exact le_of_lt hlt

/-! ### Names and values -/

theorem encodePart_cons (c : Char) (cs : List Char) :
    encodePart (c :: cs)
      = (if c = ' ' then ['+'] else Percent.encodeChars isPlain [c]) ++ encodePart cs :=
  List.flatMap_cons

/-- A name or a value is written without the marks between fields. -/
theorem notMem_encodePart {d : Char} (hplus : d ≠ '+') (hpercent : d ≠ '%')
    (hplain : isPlain d = false) (cs : List Char) : d ∉ encodePart cs := by
  intro h
  obtain ⟨c, -, hd⟩ := List.mem_flatMap.mp h
  split at hd
  · exact hplus (List.mem_singleton.mp hd)
  · rcases Percent.mem_encodeChars hd with hkeep | heq | halpha
    · rw [hplain] at hkeep
      cases hkeep
    · exact hpercent heq
    · rw [isPlain, halpha] at hplain
      cases hplain

theorem map_spaced {cs : List Char} (h : '+' ∉ cs) :
    (Utf8.encodeChars cs).map spaced = Utf8.encodeChars cs := by
  refine (List.map_congr_left fun b hb => ?_).trans (List.map_id _)
  refine if_neg fun heq => h (Utf8.mem_of_mem_encodeChars (by decide) ?_)
  rw [heq] at hb
  exact hb

/-- With spaces for its plus signs, a name or a value is percent-encoded. -/
theorem spaced_encodePart (cs : List Char) :
    (Utf8.encodeChars (encodePart cs)).map spaced
      = Utf8.encodeChars (Percent.encodeChars (fun c => c = ' ' || isPlain c) cs) := by
  induction cs with
  | nil => rfl
  | cons c cs ih =>
    have hsplit : Percent.encodeChars (fun c => c = ' ' || isPlain c) (c :: cs)
        = Percent.encodeChars (fun c => c = ' ' || isPlain c) [c]
          ++ Percent.encodeChars (fun c => c = ' ' || isPlain c) cs :=
      Percent.encodeChars_append _ [c] cs
    rw [encodePart_cons, Utf8.encodeChars_append, List.map_append, ih, hsplit,
      Utf8.encodeChars_append]
    congr 1
    split
    · next hc =>
      rw [hc]
      decide
    · next hc =>
      have hsame : Percent.encodeChars (fun c => c = ' ' || isPlain c) [c]
          = Percent.encodeChars isPlain [c] := by
        simp [Percent.encodeChars, hc]
      rw [hsame]
      refine map_spaced fun hplus => ?_
      rcases Percent.mem_encodeChars hplus with h | h | h
      · exact absurd h (by decide)
      · exact absurd h (by decide)
      · exact absurd h (by decide)

theorem toNat_of_isPlain {c : Char} (h : isPlain c = true) : c.toNat < 0x80 := by
  simp only [isPlain, Ascii.isAlphanumeric, Ascii.isLetter, Ascii.isDigit, Bool.or_eq_true,
    Bool.and_eq_true, decide_eq_true_eq] at h
  have hupper : ∀ d : Char, c ≤ d → d.toNat < 0x80 → c.toNat < 0x80 :=
    fun d hle hd => Nat.lt_of_le_of_lt hle hd
  rcases h with ((((⟨⟨-, h⟩ | ⟨-, h⟩⟩ | ⟨-, h⟩) | rfl) | rfl) | rfl) | rfl
  all_goals first | decide | exact hupper _ h (by decide)

theorem readPart?_encodePart (s : String) :
    readPart? (Utf8.encodeChars (encodePart s.toList)) = some s := by
  have hkeep : ∀ c : Char, (decide (c = ' ') || isPlain c) = true → c.toNat < 0x80 ∧ c ≠ '%' := by
    intro c hc
    refine ⟨?_, fun hpercent => absurd (hpercent ▸ hc) (by decide)⟩
    rcases Bool.or_eq_true_iff.mp hc with hspace | hplain
    · rw [of_decide_eq_true hspace]
      decide
    · exact toNat_of_isPlain hplain
  rw [readPart?, spaced_encodePart, Percent.decodeBytes_encodeChars hkeep, Utf8.decode?,
    Utf8.decodeChars?_encodeChars, Option.map_some, String.ofList_toList]

/-! ### Fields -/

/-- The bytes of one field. -/
def fieldBytes (f : String × String) : Bytes :=
  Utf8.encodeChars (encodePair (f.1.toList, f.2.toList))

theorem fieldBytes_eq (f : String × String) :
    fieldBytes f = Utf8.encodeChars (encodePart f.1.toList)
      ++ 0x3D :: Utf8.encodeChars (encodePart f.2.toList) := by
  rw [fieldBytes, encodePair, Utf8.encodeChars_append, Utf8.encodeChars_cons,
    Utf8.encode_one (show '='.toNat < 0x80 by decide)]
  rfl

theorem fieldBytes_ne_nil (f : String × String) : fieldBytes f ≠ [] := by
  rw [fieldBytes_eq]
  exact List.append_ne_nil_of_right_ne_nil _ (List.cons_ne_nil _ _)

/-- No name and no value holds an equals sign. -/
theorem ne_equals {cs : List Char} {b : UInt8} (h : b ∈ Utf8.encodeChars (encodePart cs)) :
    b ≠ 0x3D := by
  rintro rfl
  have hmem : '=' ∈ encodePart cs := Utf8.mem_of_mem_encodeChars (by decide) h
  exact notMem_encodePart (by decide) (by decide) (by decide) cs hmem

/-- No field holds an ampersand. -/
theorem notMem_fieldBytes (f : String × String) : (0x26 : UInt8) ∉ fieldBytes f := by
  intro h
  have hmem : '&' ∈ encodePair (f.1.toList, f.2.toList) :=
    Utf8.mem_of_mem_encodeChars (by decide) h
  rcases List.mem_append.mp hmem with hname | hvalue
  · exact notMem_encodePart (by decide) (by decide) (by decide) _ hname
  · rcases List.mem_cons.mp hvalue with heq | hvalue
    · exact absurd heq (by decide)
    · exact notMem_encodePart (by decide) (by decide) (by decide) _ hvalue

theorem readField?_fieldBytes (f : String × String) : readField? (fieldBytes f) = some f := by
  have hname : ∀ b ∈ Utf8.encodeChars (encodePart f.1.toList), decide (b ≠ 0x3D) = true :=
    fun b hb => decide_eq_true (ne_equals hb)
  rw [readField?, fieldBytes_eq, List.takeWhile_append_of_pos hname,
    List.dropWhile_append_of_pos hname, List.takeWhile_cons_of_neg (by decide),
    List.dropWhile_cons_of_neg (by decide), List.append_nil, List.drop_succ_cons, List.drop_zero,
    readPart?_encodePart, readPart?_encodePart]
  rfl

theorem readFields (fs : List (String × String)) :
    (fs.map fieldBytes).mapM readField? = some fs := by
  induction fs with
  | nil => rfl
  | cons f fs ih =>
    rw [List.map_cons, List.mapM_cons, readField?_fieldBytes, ih]
    rfl

/-! ### Bodies -/

theorem encodeChars_intercalate (c : Char) (css : List (List Char)) :
    Utf8.encodeChars ([c].intercalate css)
      = (String.utf8EncodeChar c).intercalate (css.map Utf8.encodeChars) := by
  induction css with
  | nil => rfl
  | cons cs css ih =>
    cases css with
    | nil => simp
    | cons ds css =>
      simp only [List.map_cons, List.intercalate_cons_cons, Utf8.encodeChars_append] at ih ⊢
      rw [ih, Utf8.encodeChars_cons, Utf8.encodeChars_nil, List.append_nil]

/-- A body is its fields between ampersands. -/
theorem encodeChars_encode (fs : List (String × String)) :
    Utf8.encodeChars (encode (fs.map fun f => (f.1.toList, f.2.toList)))
      = [0x26].intercalate (fs.map fieldBytes) := by
  rw [encode, encodeChars_intercalate, List.map_map, List.map_map,
    Utf8.encode_one (show '&'.toNat < 0x80 by decide)]
  rfl

/-- **The fields that were written are read**: none is lost, none is added, none is cut. -/
theorem read?_encode (fs : List (String × String)) :
    read? (Utf8.encodeChars (encode (fs.map fun f => (f.1.toList, f.2.toList)))) = some fs := by
  rw [encodeChars_encode, read?]
  cases fs with
  | nil => rfl
  | cons f fs =>
    have hamp : ∀ bs ∈ (f :: fs).map fieldBytes, (0x26 : UInt8) ∉ bs := by
      intro bs hbs
      obtain ⟨g, -, rfl⟩ := List.mem_map.mp hbs
      exact notMem_fieldBytes g
    have hkept : ∀ bs ∈ (f :: fs).map fieldBytes, decide (bs ≠ []) = true := by
      intro bs hbs
      obtain ⟨g, -, rfl⟩ := List.mem_map.mp hbs
      exact decide_eq_true (fieldBytes_ne_nil g)
    rw [List.splitOn_intercalate 0x26 hamp (List.cons_ne_nil _ _), List.filter_eq_self.mpr hkept]
    exact readFields (f :: fs)

/-- **The fields of an object are read from its body**, in the order of their names. -/
theorem read?_body (url : Url) (ms : Dictionary Value) :
    ∃ bs, (Http.RestClient.mk url true).body (.json (.object ms)) = .ok (some bs)
      ∧ read? bs = some (fields ms)
      ∧ (ms.Ordered → (fields ms).Pairwise fun a b => a.1 ≤ b.1) := by
  refine ⟨Utf8.encodeChars (encode (pairs ms)), rfl, ?_, pairwise_fields⟩
  rw [pairs_eq]
  exact read?_encode (fields ms)

/-- The marks between fields stand escaped where they are part of a name or a value. -/
example : encode (pairs [("a b", .array [.string "1&2=+%", .null, .bool true])])
    = "a+b=1%262%3D%2B%25&a+b=&a+b=true".toList := by
  decide

end Switchboard.Form
