import Switchboard.Grpc.Payload
import Switchboard.Proofs.Json.RoundTrip
import Switchboard.Proofs.Proto.Arrangement
import Switchboard.Proofs.Proto.Encoding
import Switchboard.Proofs.Proto.Rooms

/-!
# Three forms of one request

A request may be given as a JSON value, as the text of that value, or as the bytes of the
message that the value stands for.  The first two are read by one reader, with room for
deeper nesting in the first.  The bytes give the message back except for zeros that an
encoder takes for the default.

## Main results

* `requestMessage?_render` — the text of a value gives the message of the value.
* `requestMessage?_encode` — so do the bytes, as far as they tell.
* `requestMessage_forms` — **the three forms of a request agree.**
-/

namespace Switchboard.Grpc

open Proto Json

variable {p : Pool} {t : MessageType} {m : Message} {v : Value}

/-- The text of a value gives the message that the value gives, unless the value is nested
too deeply for a text; then the text gives no message. -/
theorem requestMessage?_render (hints : v.IntegersOnly) :
    Narrower Document.maxDepth v.depth (requestMessage? p t (.text v.render))
      (requestMessage? p t (.json v)) := by
  have htext : requestMessage? p t (.text v.render)
      = p.read? Document.maxDepth t (.ofValue v) := by
    rw [requestMessage?, Value.render, String.toList_ofList, Document.ofText?_renderChars hints,
      Option.bind_some]
  rw [htext, requestMessage?, Document.depth_ofValue]
  by_cases hdepth : v.depth ≤ Document.maxDepth
  · -- The reader has more room in the text than the value needs.
    have hnarrow := p.narrower_read? t (.ofValue v) hdepth
    rw [Document.depth_ofValue] at hnarrow
    rcases hnarrow with heq | ⟨hdeep, -⟩
    · rw [heq]
      exact .refl _
    · exact absurd hdeep (Nat.lt_irrefl _)
  · have hnarrow := p.narrower_read? t (.ofValue v) (Nat.le_of_not_le hdepth)
    rw [Document.depth_ofValue] at hnarrow
    exact hnarrow

/-- The bytes of a message that a value gives are a body for what is left of the message in
its bytes. -/
theorem requestMessage?_encode (hp : p.Sound) {name : String} (ht : p.message? name = some t)
    (hm : requestMessage? p t (.json v) = some m) (hdepth : m.depth ≤ Pool.maxNesting)
    (hlength : (p.encode t m).length < 2 ^ 64) :
    requestMessage? p t (.bytes (p.encode t m)) = some (m.settled p t) := by
  have hstored : m.Stored p t := Pool.stored_read? hp ht hm
  exact Pool.decode?_encode hp (List.mem_of_find?_eq_some ht) hstored hdepth hlength

/-- **The three forms of a request agree.**  A JSON value with integers for numbers, nested
no deeper than a text may be, that gives a message gives the same message as a text.  The
bytes of the message give what is left of it in them, which is the message itself unless it
holds a zero that an encoder takes for the default.  A value that gives no message gives
none as a text either. -/
theorem requestMessage_forms {files : List FileDecl} (hlink : Pool.link? files = some p)
    (hnumbers : p.NarrowEnums) {name : String} (ht : p.message? name = some t)
    (hints : v.IntegersOnly) :
    (∀ m, requestMessage p t (.json v) = .ok m → v.depth ≤ Document.maxDepth →
        requestMessage p t (.text v.render) = .ok m ∧
        (m.depth ≤ Pool.maxNesting → (p.encode t m).length < 2 ^ 64 →
          requestMessage p t (.bytes (p.encode t m)) = .ok (m.settled p t) ∧
          (m.Lossless p t → m.settled p t = m))) ∧
      ∀ failure, requestMessage p t (.json v) = .error failure →
        requestMessage p t (.text v.render) = .error unfitting := by
  have hlinked := Pool.linked_of_link? hlink
  have hsound : p.Sound := ⟨hlinked, Pool.regular_of_link? hlink hnumbers, hnumbers⟩
  have htext := requestMessage?_render (p := p) (t := t) hints
  constructor
  · intro m hm hdepth
    have hread : requestMessage? p t (.json v) = some m := by
      unfold requestMessage at hm
      split at hm
      · next hread => rw [hread, Except.ok.inj hm]
      · cases hm
    constructor
    · rcases htext with heq | ⟨hdeep, -⟩
      · rw [requestMessage, heq, hread]
      · exact absurd hdeep (Nat.not_lt.mpr hdepth)
    · intro hnested hlength
      refine ⟨?_, contentsLossless.settled_eq m (some t)⟩
      rw [requestMessage, requestMessage?_encode hsound ht hread hnested hlength]
  · intro failure hfailure
    have hread : requestMessage? p t (.json v) = none := by
      unfold requestMessage at hfailure
      split at hfailure
      · cases hfailure
      · next hread => exact hread
    have hnone : requestMessage? p t (.text v.render) = none := by
      rcases htext with heq | ⟨-, hnone⟩
      · rw [heq, hread]
      · exact hnone
    rw [requestMessage, hnone]

/-! ### Gauges -/

/-- A file with the type of gauges, which have a level and readings. -/
def gaugeFile : FileDecl where
  name := "gauge.proto"
  version := some "proto3"
  messages :=
    [.mk "Gauge"
      [{ name := "level", number := 1, type := some (.scalar .double) },
       { name := "readings", number := 2, type := some (.scalar .sint32), label := .repeated }]
      [] [] [] false]

/-- The linked type of gauges. -/
def gaugeType : MessageType where
  name := "Gauge"
  fields :=
    [⟨"level", "level", 1, .scalar .double, .single, none, false, false, .double .zero⟩,
     ⟨"readings", "readings", 2, .scalar .sint32, .list, none, false, true, .int 0⟩]

/-- The pool of that file. -/
def gaugePool : Pool := ⟨["gauge.proto"], [gaugeType], [], []⟩

theorem link_gauge : Pool.link? [gaugeFile] = some gaugePool := by
  rw [Pool.link?, FileDecl.arrange_singleton rfl]
  rfl

/-- A gauge with two readings, as a JSON value. -/
def readings : Value := .object [("readings", .array [.number (.int (-1)), .number (.int 300)])]

/-- A gauge with a text in place of the readings. -/
def garbled : Value := .object [("readings", .string "none")]

/-- The three forms of two readings agree, and a text in place of the readings is rejected
in both forms that it has. -/
theorem requestMessage_readings :
    Pool.link? [gaugeFile] = some gaugePool ∧ gaugePool.NarrowEnums ∧
      gaugePool.message? "Gauge" = some gaugeType ∧
      readings.IntegersOnly ∧ garbled.IntegersOnly ∧
      requestMessage gaugePool gaugeType (.text readings.render)
        = .ok [(2, .list [.int (-1), .int 300])] ∧
      requestMessage gaugePool gaugeType (.bytes [18, 3, 1, 216, 4])
        = .ok [(2, .list [.int (-1), .int 300])] ∧
      requestMessage gaugePool gaugeType (.text garbled.render) = .error unfitting := by
  have hnumbers : gaugePool.NarrowEnums := nofun
  have hfound : gaugePool.message? "Gauge" = some gaugeType := rfl
  have hints : readings.IntegersOnly := by
    simp [readings, Value.IntegersOnly, Value.IntegersOnlyAll, Value.IntegersOnlyMembers,
      minInteger, maxInteger]
  have hints' : garbled.IntegersOnly := ⟨trivial, trivial⟩
  have hm : requestMessage gaugePool gaugeType (.json readings)
      = .ok [(2, .list [.int (-1), .int 300])] := by with_unfolding_all rfl
  have hrejected : requestMessage gaugePool gaugeType (.json garbled) = .error unfitting := by
    with_unfolding_all rfl
  have hencoded : gaugePool.encode gaugeType [(2, .list [.int (-1), .int 300])]
      = [18, 3, 1, 216, 4] := by with_unfolding_all rfl
  have hkept : Message.Lossless gaugePool gaugeType [(2, .list [.int (-1), .int 300])] := by
    refine ⟨fun f hf => ?_, trivial⟩
    obtain rfl := Option.some.inj hf
    exact ⟨trivial, trivial, trivial⟩
  obtain ⟨haccepts, -⟩ := requestMessage_forms link_gauge hnumbers hfound hints
  obtain ⟨-, hrejects⟩ := requestMessage_forms link_gauge hnumbers hfound hints'
  obtain ⟨htext, hbytes⟩ := haccepts _ hm (by with_unfolding_all decide)
  obtain ⟨hback, hlossless⟩ := hbytes (by with_unfolding_all decide)
    (by rw [hencoded]; decide)
  rw [hencoded, hlossless hkept] at hback
  exact ⟨link_gauge, hnumbers, hfound, hints, hints', htext, hback, hrejects _ hrejected⟩

/-- Negative zero: the sign alone. -/
def negativeZero : Double := ⟨0x8000000000000000⟩

/-- A level of negative zero, as a JSON value. -/
def negativeLevel : Value := .object [("level", .string "-0.0")]

/-- A level of negative zero is in the message of a JSON value and not in what its bytes
give. -/
theorem requestMessage_negativeLevel :
    Pool.link? [gaugeFile] = some gaugePool ∧
      gaugePool.message? "Gauge" = some gaugeType ∧ negativeLevel.IntegersOnly ∧
      negativeLevel.depth ≤ Document.maxDepth ∧
      ∃ m m' : Message, m.depth < Pool.maxNesting ∧
        requestMessage gaugePool gaugeType (.json negativeLevel) = .ok m ∧
        requestMessage gaugePool gaugeType (.bytes (gaugePool.encode gaugeType m)) = .ok m' ∧
        m.get? 1 = some (.one (.double negativeZero)) ∧ m'.get? 1 = none := by
  have hints : negativeLevel.IntegersOnly := ⟨trivial, trivial⟩
  have hm : requestMessage gaugePool gaugeType (.json negativeLevel)
      = .ok [(1, .one (.double negativeZero))] := by with_unfolding_all rfl
  have hencoded : gaugePool.encode gaugeType [(1, .one (.double negativeZero))] = [] := by
    with_unfolding_all rfl
  have hback : requestMessage gaugePool gaugeType (.bytes []) = .ok [] := by
    with_unfolding_all rfl
  have hdepth : negativeLevel.depth ≤ Document.maxDepth := by with_unfolding_all decide
  have hnesting : Message.depth [(1, .one (.double negativeZero))] < Pool.maxNesting := by
    with_unfolding_all decide
  refine ⟨link_gauge, rfl, hints, hdepth, _, [], hnesting, hm, ?_, rfl, rfl⟩
  rw [hencoded]
  exact hback

end Switchboard.Grpc
