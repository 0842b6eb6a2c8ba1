import Switchboard.Call.Response
import Switchboard.Proofs.Json.Record
import Switchboard.Proofs.Json.RoundTrip

/-!
# Results read back from their written form

A result is shown as a map and written as a record.  Both are the same object: the status, the
body, the headers with all their values and the message of the failure stand in it under their
names, and nothing else does.  So a result is read back whole from either.

## Main definitions

* `CallResult.Ordered` — the dictionaries in a result have each name once, in order.
* `CallResult.Written` — what the written form of a result has under each name.

## Main results

* `CallResult.written_toMap` — the map has all of it, and nothing else.
* `CallResult.headersOf?_headersValue` — the headers are read back.
* `CallResult.ofDocument?_toMap` — **the map is the written form, and is read back as the
  result.**
-/

namespace Switchboard

open Json

/-! ### Lists of texts -/

namespace Json.Document

theorem mapM_text?_ofValues (texts : List String) :
    (ofValues (texts.map .string)).mapM text? = some texts := by
  induction texts with
  | nil => rfl
  | cons s texts ih => simp [ofValues, ih]

/-- The texts of an array come back in their order. -/
theorem list?_text?_ofValue (texts : List String) :
    list? text? (ofValue (.array (texts.map .string))) = some texts := by
  rw [ofValue, list?, mapM_text?_ofValues]

end Json.Document

namespace CallResult

variable {r : CallResult} {headers : HeaderMap}

/-- The dictionaries in a result, which are its headers and those in its body, have each name
once, in order. -/
structure Ordered (r : CallResult) : Prop where
  /-- The names of the headers are in order. -/
  headers : Dictionary.Ordered r.headers
  /-- So are the names in the body. -/
  body : r.body.Ordered

/-- The members are those of the written form of the result. -/
structure Written (r : CallResult) (ms : Dictionary Value) : Prop where
  /-- Each name stands there once. -/
  ordered : Dictionary.Ordered ms
  /-- The status is a number. -/
  status : Dictionary.get? "statusCode" ms = some (.nat r.status.toNat)
  /-- The body stands there as it is. -/
  body : Dictionary.get? "body" ms = some r.body
  /-- Under the name of a header is the array of its values. -/
  headers : ∃ hs, Dictionary.get? "headers" ms = some (.object hs) ∧ Dictionary.Ordered hs ∧
    ∀ name, Dictionary.get? name hs =
      (Dictionary.get? name r.headers).map fun values => .array (values.map .string)
  /-- The message is there if there is one. -/
  error : Dictionary.get? "error" ms = r.error.map .string
  /-- There is nothing else. -/
  only : ∀ name, name ∉ ["statusCode", "body", "headers", "error"] →
    Dictionary.get? name ms = none

/-! ### The map -/

/-- The map is made of the members that are written, one after the other. -/
theorem toMap_eq (r : CallResult) : r.toMap = Dictionary.ofList r.members := by
  cases herror : r.error with
  | none => simp [members, toMap, herror, Dictionary.ofList]
  | some message => simp [members, toMap, herror, Dictionary.ofList]

theorem nodup_names (r : CallResult) : (r.members.map Prod.fst).Nodup := by
  cases herror : r.error with
  | none => simp [members, herror]
  | some message => simp [members, herror]

/-- What is found in the map of a result. -/
theorem get?_toMap (r : CallResult) (name : String) :
    Dictionary.get? name r.toMap =
      if name = "statusCode" then some (.nat r.status.toNat)
      else if name = "body" then some r.body
      else if name = "headers" then some (headersValue r.headers)
      else if name = "error" then r.error.map .string
      else none := by
  rw [toMap_eq, Dictionary.get?_ofList r.nodup_names]
  cases herror : r.error with
  | none => simp [members, herror, Dictionary.get?_cons]
  | some message => simp [members, herror, Dictionary.get?_cons]

/-! ### The headers -/

theorem get?_headers (headers : HeaderMap) (name : String) :
    Dictionary.get? name (headers.map fun e => (e.1, Value.array (e.2.map .string))) =
      (Dictionary.get? name headers).map fun values => .array (values.map .string) := by
  induction headers with
  | nil => rfl
  | cons e rest ih =>
    obtain ⟨k, values⟩ := e
    rw [List.map_cons, Dictionary.get?_cons, Dictionary.get?_cons, ih]
    split <;> rfl

theorem ordered_headers (h : Dictionary.Ordered headers) :
    Dictionary.Ordered (headers.map fun e => (e.1, Value.array (e.2.map .string))) :=
  List.pairwise_map.mpr h

/-- The map has the parts of the result under their names, and nothing else. -/
theorem written_toMap (h : r.Ordered) : r.Written r.toMap where
  ordered := r.toMap_eq ▸ Dictionary.ordered_ofList r.members
  status := by simp [get?_toMap]
  body := by simp [get?_toMap]
  headers := by
    refine ⟨_, ?_, ordered_headers h.headers, get?_headers r.headers⟩
    simp [get?_toMap, headersValue]
  error := by simp [get?_toMap]
  only := by
    intro name hname
    simp only [List.mem_cons, List.not_mem_nil, or_false, not_or] at hname
    simp [get?_toMap, hname]

theorem mapM_headers (headers : HeaderMap) :
    (Document.ofValueMembers (headers.map fun e => (e.1, Value.array (e.2.map .string)))).mapM
      (fun m => do return (← m.1, ← Document.list? Document.text? m.2)) = some headers := by
  induction headers with
  | nil => rfl
  | cons e rest ih =>
    obtain ⟨name, values⟩ := e
    rw [List.map_cons, Document.ofValueMembers, List.mapM_cons, ih]
    simp [Document.list?_text?_ofValue]

/-- The headers come back with all their values. -/
theorem headersOf?_headersValue (h : Dictionary.Ordered headers) :
    headersOf? (.ofValue (headersValue headers)) = some headers := by
  rw [headersValue, Document.ofValue, headersOf?, mapM_headers, Option.bind_eq_bind,
    Option.bind_some, Dictionary.ofList_of_ordered h]
  rfl

theorem integer?_status (status : UInt16) :
    Document.integer? 0 (2 ^ 16 - 1) (.ofValue (.nat status.toNat)) = some (status.toNat : ℤ) := by
  have hlt := status.toNat_lt
  rw [Value.nat, Document.ofValue, Document.integer?, if_pos (by omega)]

/-- The fields of the record that the map gives. -/
theorem record?_toMap (r : CallResult) :
    Document.record? ["statusCode", "body", "headers", "error"] (.ofValue (.object r.toMap)) =
      some [some (.ofValue (.nat r.status.toNat)), some (.ofValue r.body),
        some (.ofValue (headersValue r.headers)), r.error.map fun e => .ofValue (.string e)] := by
  have hordered : Dictionary.Ordered r.toMap := r.toMap_eq ▸ Dictionary.ordered_ofList r.members
  rw [Document.record?_object (by decide) hordered, Document.shapeOf]
  simp [get?_toMap, Function.comp_def]

/-- The message comes back, or that there is none. -/
theorem optional?_error (error : Option String) :
    Document.withDefault? none (Document.optional? Document.text?)
      (error.map fun e => .ofValue (.string e)) = some error := by
  cases error with
  | none => rfl
  | some message =>
    simp [Document.withDefault?, Document.ofValue, Document.optional?, Document.text?]

/-- **The map is the written form, and is read back as the result.**  The map of a result has
its status, its body as it is, under the name of every header the array of its values, and the
message if there is one, and nothing else.  The record that is written is the same object, and
whoever reads it has the result again: no value of a header and nothing of the body is lost. -/
theorem ofDocument?_toMap (h : r.Ordered) :
    r.Written r.toMap ∧ r.toJson = .object r.toMap ∧
      ofDocument? (.ofValue r.toJson) = some r := by
  have hsame : r.toJson = .object r.toMap := by rw [toJson, Value.ofMembers, toMap_eq]
  refine ⟨written_toMap h, hsame, ?_⟩
  rw [hsame]
  simp only [ofDocument?, record?_toMap, Option.bind_eq_bind, Option.bind_some,
    Document.required?, integer?_status, Document.content?_ofValue _ h.body,
    headersOf?_headersValue h.headers, optional?_error]
  simp

/-- A result with names in its body that are those of its own parts, a zero with a sign, a
header that came three times and one without values. -/
def multiStatus : CallResult where
  status := 207
  body := .object [
    ("", .array [.number (.double ⟨0x8000000000000000⟩), .null]),
    ("error", .string "é\u0000"), ("statusCode", .object [("body", .int minInteger)])]
  headers := [("set-cookie", ["a=1", "b=2", "a=1"]), ("x-none", [])]
  error := some ""

theorem ofDocument?_toMap_multiStatus :
    multiStatus.Ordered ∧ multiStatus.toJson = .object multiStatus.toMap ∧
      ofDocument? (.ofValue multiStatus.toJson) = some multiStatus := by
  have hordered : multiStatus.Ordered := by
    refine ⟨by decide, ?_⟩
    simp only [multiStatus, Value.Ordered, Value.OrderedAll, Value.OrderedMembers, Value.int]
    decide
  exact ⟨hordered, (ofDocument?_toMap hordered).2⟩

end CallResult

end Switchboard
