import Switchboard.Call.Decoding
import Switchboard.Http.Rest
import Switchboard.Proofs.Dictionary
import Switchboard.Proofs.Json.Scanning
import Switchboard.Proofs.Text.Utf8

/-!
# Values read back from their text

The compact text of a value is taken in token by token.  `Document.Reads s cs d` says that
the text `cs` takes the reader from the state `s` to the document `d`; where the text of a
value stands and the reader expects one, it passes to the state in which that value has
been read, whatever stands around it.  So a value reads back from its text, as deep as
documents may be nested.

## Main definitions

* `Document.Reads` — what a text does from a state of the reader.

## Main results

* `Document.ofText?_of_reads` — the document that a text is read as.
* `Document.reads_value` — **the text of a value is read as that value** wherever one may
  stand.
* `Document.value?_ofValue` — the value of the document that spells a value.
* `Http.RestClient.value_body` — **a body that is sent back unchanged has the value that was
  sent**; one that is nested too deeply has its text instead (`value_body_of_deep`).
-/

namespace Switchboard.Json

namespace Document

/-! ### Reading token by token -/

/-- The text takes the reader from a state to the document. -/
inductive Reads : State → List Char → Document → Prop where
  /-- Nothing follows a document. -/
  | done (d : Document) : Reads (.done d) [] d
  /-- One token, and what is read after it. -/
  | token {s s' : State} {t : Token} {c : Char} {w rest : List Char} {d : Document}
      (hspace : Token.isSpace c = false) (hscan : Token.scan c (w ++ rest) = some (t, rest))
      (hstep : step s t = some s') (hrest : Reads s' rest d) : Reads s (c :: w ++ rest) d

variable {s s' : State} {rest cs : List Char} {d : Document}

/-- Every token takes a character, so there is fuel for all of them. -/
theorem Reads.exists_tokens (h : Reads s cs d) (fuel : ℕ) (hfuel : cs.length ≤ fuel) :
    ∃ ts, Token.tokens fuel cs = some ts ∧ ts.foldlM step s = some (.done d) := by
  induction h generalizing fuel with
  | done d => exact ⟨[], by rw [Token.tokens], rfl⟩
  | @token s s' t c w rest d hspace hscan hstep hrest ih =>
    rw [List.length_append, List.length_cons] at hfuel
    obtain ⟨fuel, rfl⟩ : ∃ k, fuel = k + 1 := ⟨fuel - 1, by omega⟩
    obtain ⟨ts, htokens, hfold⟩ := ih fuel (by omega)
    refine ⟨t :: ts, ?_, ?_⟩
    · rw [List.cons_append, Token.tokens, if_neg (Bool.eq_false_iff.mp hspace), hscan]
      simp only [Option.bind_eq_bind, Option.bind_some, htokens]
      rfl
    · rw [List.foldlM_cons, hstep]
      exact hfold

/-- What a text is read as from the start is its document. -/
theorem ofText?_of_reads (h : Reads (.value []) cs d) : ofText? cs = some d := by
  obtain ⟨ts, htokens, hfold⟩ := h.exists_tokens cs.length (Nat.le_refl _)
  rw [ofText?, Token.ofText?, htokens, Option.bind_eq_bind, Option.bind_some, ofTokens?, hfold]

/-! ### One token -/

theorem Reads.spelled {w : List Char} {t : Token} (hw : Token.Spells w t)
    (hstep : step s t = some s') (hcloses : Closes rest) (h : Reads s' rest d) :
    Reads s (w ++ rest) d := by
  obtain ⟨c, w, rfl, hspace, hscan⟩ := hw
  exact .token hspace (hscan rest hcloses) hstep h

/-- A mark is read whatever follows it. -/
theorem Reads.mark {c : Char} {t : Token} (hspace : Token.isSpace c = false)
    (hscan : Token.scan c rest = some (t, rest)) (hstep : step s t = some s')
    (h : Reads s' rest d) : Reads s (c :: rest) d :=
  .token (w := []) hspace hscan hstep h

/-- The first element of an array is read as any other. -/
theorem Reads.firstElement {outer : List Frame} (h : Reads (.value (.array [] :: outer)) cs d) :
    Reads (.firstElement outer) cs d := by
  cases h with
  | @token _ s' t c w rest d hspace hscan hstep hrest =>
    refine .token hspace hscan ?_ hrest
    cases t with
    | closeArray => cases hstep
    | _ => exact hstep

/-- A name and its colon. -/
theorem Reads.named {before : List (Option String × Document)} {outer : List Frame} {k : String}
    (hstep : step s (.string (some k)) = some (.colon before (some k) outer))
    (h : Reads (.value (.object before (some k) :: outer)) cs d) :
    Reads s (quote k ++ ':' :: cs) d :=
  .spelled (Token.spells_quote k) hstep (closes_cons (by decide) cs) (.mark rfl rfl rfl h)

/-! ### Values -/

mutual

/-- The text of a value is read as that value. -/
theorem reads_value : (v : Value) → v.IntegersOnly → ∀ {outer : List Frame} {rest : List Char}
    {d : Document}, Closes rest → Reads (complete (ofValue v) outer) rest d →
      Reads (.value outer) (v.renderChars ++ rest) d
  | .null => fun _ _ _ _ hcloses h => .spelled Token.spells_null rfl hcloses h
  | .bool true => fun _ _ _ _ hcloses h => .spelled Token.spells_true rfl hcloses h
  | .bool false => fun _ _ _ _ hcloses h => .spelled Token.spells_false rfl hcloses h
  | .number (.int i) => fun hv _ _ _ hcloses h =>
    .spelled (Token.spells_renderInt hv.1 hv.2) rfl hcloses h
  | .number (.double _) => fun hv => hv.elim
  | .string s => fun _ _ _ _ hcloses h => .spelled (Token.spells_quote s) rfl hcloses h
  | .array [] => fun _ _ _ _ _ h => .mark rfl rfl rfl (.mark rfl rfl rfl h)
  | .array (x :: xs) => fun hv _ rest _ hcloses h => by
    rw [Value.IntegersOnly, Value.IntegersOnlyAll] at hv
    simp only [Value.renderChars, List.cons_append, List.append_assoc]
    refine .mark rfl rfl rfl (.firstElement ?_)
    exact reads_value x hv.1 (closes_renderElements xs rest) (reads_elements xs hv.2 hcloses h)
  | .object [] => fun _ _ _ _ _ h => .mark rfl rfl rfl (.mark rfl rfl rfl h)
  | .object ((k, v) :: ms) => fun hv _ rest _ hcloses h => by
    rw [Value.IntegersOnly, Value.IntegersOnlyMembers] at hv
    simp only [Value.renderChars, List.cons_append, List.append_assoc]
    refine .mark rfl rfl rfl (.named rfl ?_)
    exact reads_value v hv.1 (closes_renderMembers ms rest) (reads_members ms hv.2 hcloses h)

/-- The elements that follow another, and the bracket behind them. -/
theorem reads_elements : (xs : List Value) → Value.IntegersOnlyAll xs →
    ∀ {before : List Document} {outer : List Frame} {rest : List Char} {d : Document},
      Closes rest → Reads (complete (.array (before.reverse ++ ofValues xs)) outer) rest d →
        Reads (.afterElement before outer) (Value.renderElements xs ++ rest) d
  | [] => fun _ before _ _ _ _ h => by
    rw [ofValues, List.append_nil] at h
    exact .mark rfl rfl rfl h
  | x :: xs => fun hv before _ rest _ hcloses h => by
    rw [Value.IntegersOnlyAll] at hv
    rw [ofValues, List.append_cons, ← List.reverse_cons] at h
    simp only [Value.renderElements, List.cons_append, List.append_assoc]
    refine .mark rfl rfl rfl ?_
    exact reads_value x hv.1 (closes_renderElements xs rest) (reads_elements xs hv.2 hcloses h)

/-- The members that follow another, and the brace behind them. -/
theorem reads_members : (ms : List (String × Value)) → Value.IntegersOnlyMembers ms →
    ∀ {before : List (Option String × Document)} {outer : List Frame} {rest : List Char}
      {d : Document}, Closes rest →
        Reads (complete (.object (before.reverse ++ ofValueMembers ms)) outer) rest d →
          Reads (.afterMember before outer) (Value.renderMembers ms ++ rest) d
  | [] => fun _ before _ _ _ _ h => by
    rw [ofValueMembers, List.append_nil] at h
    exact .mark rfl rfl rfl h
  | (k, v) :: ms => fun hv before _ rest _ hcloses h => by
    rw [Value.IntegersOnlyMembers] at hv
    rw [ofValueMembers, List.append_cons, ← List.reverse_cons] at h
    simp only [Value.renderMembers, List.cons_append, List.append_assoc]
    refine .mark rfl rfl rfl (.named rfl ?_)
    exact reads_value v hv.1 (closes_renderMembers ms rest) (reads_members ms hv.2 hcloses h)

end

/-- The text of a value is read as the document that spells it. -/
theorem ofText?_renderChars {v : Value} (h : v.IntegersOnly) :
    ofText? v.renderChars = some (ofValue v) := by
  have hreads : Reads (.value []) (v.renderChars ++ []) (ofValue v) :=
    reads_value v h closes_nil (.done _)
  rw [List.append_nil] at hreads
  exact ofText?_of_reads hreads

/-! ### The value of a document -/

mutual

/-- The document that spells a value has it as its value. -/
theorem content?_ofValue : (v : Value) → v.Ordered → (ofValue v).content? = some v
  | .null => fun _ => by rw [ofValue, content?]
  | .bool _ => fun _ => by rw [ofValue, content?]
  | .number _ => fun _ => by rw [ofValue, content?, Option.map_some]
  | .string _ => fun _ => by rw [ofValue, content?, Option.map_some]
  | .array xs => fun h => by
    rw [Value.Ordered] at h
    rw [ofValue, content?, contentAll?_ofValues xs h, Option.map_some]
  | .object ms => fun h => by
    rw [Value.Ordered] at h
    rw [ofValue, content?, contentMembers?_ofValueMembers ms h.2, Option.map_some, Value.ofMembers,
      Dictionary.ofList_of_ordered h.1]

theorem contentAll?_ofValues : (xs : List Value) → Value.OrderedAll xs →
    contentAll? (ofValues xs) = some xs
  | [] => fun _ => by rw [ofValues, contentAll?]
  | x :: xs => fun h => by
    rw [Value.OrderedAll] at h
    rw [ofValues, contentAll?, content?_ofValue x h.1, contentAll?_ofValues xs h.2]
    rfl

theorem contentMembers?_ofValueMembers : (ms : List (String × Value)) →
    Value.OrderedMembers ms → contentMembers? (ofValueMembers ms) = some ms
  | [] => fun _ => by rw [ofValueMembers, contentMembers?]
  | (k, v) :: ms => fun h => by
    rw [Value.OrderedMembers] at h
    rw [ofValueMembers, contentMembers?, content?_ofValue v h.1,
      contentMembers?_ofValueMembers ms h.2]
    rfl

end

mutual

/-- A document is nested as deeply as the value that it spells. -/
theorem depth_ofValue : (v : Value) → (ofValue v).depth = v.depth
  | .null => by rw [ofValue, depth, Value.depth]
  | .bool _ => by rw [ofValue, depth, Value.depth]
  | .number _ => by rw [ofValue, depth, Value.depth]
  | .string _ => by rw [ofValue, depth, Value.depth]
  | .array xs => by rw [ofValue, depth, Value.depth, depthAll_ofValues xs]
  | .object ms => by rw [ofValue, depth, Value.depth, depthMembers_ofValueMembers ms]

theorem depthAll_ofValues : (xs : List Value) → depthAll (ofValues xs) = Value.depthAll xs
  | [] => by rw [ofValues, depthAll, Value.depthAll]
  | x :: xs => by rw [ofValues, depthAll, Value.depthAll, depth_ofValue x, depthAll_ofValues xs]

theorem depthMembers_ofValueMembers : (ms : List (String × Value)) →
    depthMembers (ofValueMembers ms) = Value.depthMembers ms
  | [] => by rw [ofValueMembers, depthMembers, Value.depthMembers]
  | (_, v) :: ms => by
    rw [ofValueMembers, depthMembers, Value.depthMembers, depth_ofValue v,
      depthMembers_ofValueMembers ms]

end

/-- The document that spells a value has it as its value, unless it is nested too deeply. -/
theorem value?_ofValue {v : Value} (hordered : v.Ordered) (hdepth : v.depth ≤ maxDepth) :
    (ofValue v).value? = some v := by
  rw [value?, depth_ofValue, if_pos hdepth, content?_ofValue v hordered]

theorem value?_ofValue_of_deep {v : Value} (hdepth : maxDepth < v.depth) :
    (ofValue v).value? = none := by
  rw [value?, depth_ofValue, if_neg (Nat.not_le.mpr hdepth)]

end Document

namespace Value

variable {v : Value}

/-- The text of a value is read as the document that spells it. -/
theorem ofText?_renderChars (hints : v.IntegersOnly) :
    ofText? v.renderChars = (Document.ofValue v).value? := by
  rw [ofText?, Document.ofText?_renderChars hints, Option.bind_eq_bind, Option.bind_some]

/-- So are its bytes. -/
theorem ofBytes?_renderBytes (hints : v.IntegersOnly) :
    ofBytes? v.renderBytes = (Document.ofValue v).value? := by
  rw [ofBytes?, renderBytes, Text.Utf8.decodeChars?_encodeChars, Option.bind_eq_bind,
    Option.bind_some, ofText?_renderChars hints]

/-- The text of a value is never empty. -/
theorem renderBytes_ne_nil (hints : v.IntegersOnly) : v.renderBytes ≠ [] := by
  intro hnil
  have hchars : some v.renderChars = some [] := by
    rw [← Text.Utf8.decodeChars?_encodeChars v.renderChars, ← Text.Utf8.decodeChars?_encodeChars []]
    exact congrArg _ hnil
  have hdocument := Document.ofText?_renderChars hints
  rw [Option.some.inj hchars] at hdocument
  cases hdocument

end Value

end Switchboard.Json

namespace Switchboard

open Json

/-- The value of a body that holds something: JSON or plain text. -/
theorem ResponseBody.value_rest {bs : Bytes} (h : bs ≠ []) :
    (ResponseBody.rest bs).value = (Value.ofBytes? bs).getD (rawText bs) := by
  rw [ResponseBody.value]
  exact h

/-- **A body that is sent back unchanged has the value that was sent**: its integers to the
last digit, its texts to the last character, its members and elements in their places. -/
theorem Http.RestClient.value_body (url : Url) {v : Value} (hints : v.IntegersOnly)
    (hordered : v.Ordered) (hdepth : v.depth ≤ Document.maxDepth) :
    ∃ bs, (RestClient.mk url false).body (.json v) = .ok (some bs)
      ∧ (ResponseBody.rest bs).value = v := by
  refine ⟨v.renderBytes, rfl, ?_⟩
  rw [ResponseBody.value_rest (Value.renderBytes_ne_nil hints),
    Value.ofBytes?_renderBytes hints, Document.value?_ofValue hordered hdepth, Option.getD_some]

/-- A value that is awkward to write: nothing for a name, names and texts with quotes,
backslashes, control characters and characters outside the basic plane, the limits of the
integers, empty containers. -/
def Json.awkward : Value :=
  .object [
    ("", .array [.int minInteger, .int (-1), .int 0, .int maxInteger, .bool true, .array []]),
    ("\"\\", .object [("\u0000\n\u001f", .string "/\u007f\u2028😀"), ("\x7b", .null)]),
    ("é", .object [])]

theorem Http.RestClient.value_body_awkward :
    awkward.IntegersOnly ∧ awkward.Ordered ∧ awkward.depth ≤ Document.maxDepth ∧
      ∃ bs, (RestClient.mk default false).body (.json awkward) = .ok (some bs)
        ∧ (ResponseBody.rest bs).value = awkward := by
  have hints : awkward.IntegersOnly := by
    simp [awkward, Value.IntegersOnly, Value.IntegersOnlyAll, Value.IntegersOnlyMembers, Value.int,
      minInteger, maxInteger]
  have hordered : awkward.Ordered := by
    simp only [awkward, Value.Ordered, Value.OrderedAll, Value.OrderedMembers, Value.int,
      Dictionary.Ordered, List.pairwise_cons, List.Pairwise.nil, String.lt_iff_toList_lt]
    decide
  have hdepth : awkward.depth ≤ Document.maxDepth := by decide
  exact ⟨hints, hordered, hdepth, value_body default hints hordered hdepth⟩

/-- What is nested more deeply comes back as its text. -/
theorem Http.RestClient.value_body_of_deep (url : Url) {v : Value} (hints : v.IntegersOnly)
    (hdepth : Document.maxDepth < v.depth) :
    ∃ bs, (RestClient.mk url false).body (.json v) = .ok (some bs)
      ∧ (ResponseBody.rest bs).value = .string v.render := by
  refine ⟨v.renderBytes, rfl, ?_⟩
  rw [ResponseBody.value_rest (Value.renderBytes_ne_nil hints), Value.ofBytes?_renderBytes hints,
    Document.value?_ofValue_of_deep hdepth, Option.getD_none, rawText, Text.Utf8.decodeLossy,
    Value.renderBytes, Text.Utf8.decodeCharsLossy_encodeChars]
  rfl

end Switchboard
