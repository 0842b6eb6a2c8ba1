import Switchboard.Endpoint.Basic
import Switchboard.Proofs.Json.Record
import Switchboard.Proofs.Json.RoundTrip

/-!
# Endpoints read back from their written form

An endpoint is written as JSON and read by somebody else.  Everything comes back as it was
but the timeout, which is written as a number of whole milliseconds, and in which `0` and
`-1` have a meaning of their own.  So a limit loses what it has beyond its last whole
millisecond, and one that has no whole millisecond becomes the default limit.

## Main definitions

* `Endpoint.Built` — the endpoints that can be made without reading one.
* `Timeout.NoLonger` — a limit where the other timeout has one, and no longer than that.
* `Endpoint.ComesBack` — nothing is lost on the way but a part of the limit.

## Main results

* `Endpoint.passedOn?_eq` — what comes back.
* `Timeout.noLonger_ofMillis_iff` — when a timeout survives the count of milliseconds.
* `Endpoint.comesBack_iff` — **when an endpoint comes back**; `not_comesBack_hasty` is one
  that does not.
-/

namespace Switchboard

/-! ### Timeouts as milliseconds -/

/-- A span cut down to whole milliseconds, of which sixty-four bits hold the number. -/
def Duration.trimmed (d : Duration) : Duration :=
  .ofMillis (min d.wholeMillis (2 ^ 63 - 1))

theorem Duration.trimmed_le (d : Duration) : d.trimmed.nanoseconds ≤ d.nanoseconds := by
  simp only [trimmed, ofMillis, wholeMillis]
  omega

namespace Timeout

/-- A limit without a whole millisecond. -/
def IsFleeting : Timeout → Prop
  | .fixed d => d.wholeMillis = 0
  | .standard | .unbounded => False

/-- The one timeout sets a limit exactly if the other does, and it is no longer. -/
def NoLonger (t u : Timeout) : Prop :=
  match t.deadline, u.deadline with
  | none, none => True
  | some l, some l' => l.nanoseconds ≤ l'.nanoseconds
  | _, _ => False

/-- The number of milliseconds has its place in sixty-four bits. -/
theorem millis_bounds (t : Timeout) : -(2 ^ 63) ≤ t.millis ∧ t.millis ≤ 2 ^ 63 - 1 := by
  cases t with
  | standard => decide
  | unbounded => decide
  | fixed d =>
    simp only [millis]
    omega

theorem ofMillis_millis_of_fleeting {t : Timeout} (h : t.IsFleeting) :
    ofMillis t.millis = .standard := by
  cases t with
  | standard => exact h.elim
  | unbounded => exact h.elim
  | fixed d =>
    rw [IsFleeting] at h
    simp [millis, h, ofMillis]

/-- A limit of at least a millisecond is only trimmed. -/
theorem ofMillis_millis_fixed {d : Duration} (h : d.wholeMillis ≠ 0) :
    ofMillis (millis (.fixed d)) = .fixed d.trimmed := by
  have hmin : millis (.fixed d) = (min d.wholeMillis (2 ^ 63 - 1) : ℕ) := by
    simp only [millis]
    omega
  have hpos : 0 < min d.wholeMillis (2 ^ 63 - 1) := by omega
  rw [hmin, ofMillis, if_neg (by omega), if_pos (by omega), Int.toNat_natCast,
    Duration.trimmed]

/-- The limit that is left after a timeout has been counted in milliseconds. -/
theorem deadline_ofMillis_millis {t : Timeout} (h : ¬ t.IsFleeting) :
    (ofMillis t.millis).deadline = t.deadline.map Duration.trimmed := by
  cases t with
  | standard => decide
  | unbounded => rfl
  | fixed d => rw [ofMillis_millis_fixed h, deadline_fixed, deadline_fixed, Option.map_some]

/-- No limit is lost, and none is made up. -/
theorem deadline_ofMillis_millis_eq_none_iff (t : Timeout) :
    (ofMillis t.millis).deadline = none ↔ t.deadline = none := by
  by_cases h : t.IsFleeting
  · rw [ofMillis_millis_of_fleeting h]
    cases t with
    | fixed d => simp
    | standard => exact h.elim
    | unbounded => exact h.elim
  · rw [deadline_ofMillis_millis h, Option.map_eq_none_iff]

/-- The default limit is longer than any that has no whole millisecond. -/
theorem not_noLonger_of_fleeting {t : Timeout} (h : t.IsFleeting) :
    ¬ NoLonger .standard t := by
  cases t with
  | standard => exact h.elim
  | unbounded => exact h.elim
  | fixed d =>
    rw [IsFleeting, Duration.wholeMillis] at h
    simp only [NoLonger, deadline_standard, deadline_fixed, standardLimit, Duration.ofSeconds]
    omega

/-- **When a timeout survives the count of milliseconds**: if it has a whole one. -/
theorem noLonger_ofMillis_iff (t : Timeout) :
    (ofMillis t.millis).NoLonger t ↔ ¬ t.IsFleeting := by
  constructor
  · intro hle hfleeting
    rw [ofMillis_millis_of_fleeting hfleeting] at hle
    exact not_noLonger_of_fleeting hfleeting hle
  · intro h
    rw [NoLonger, deadline_ofMillis_millis h]
    cases t.deadline with
    | none => trivial
    | some l => exact l.trimmed_le

/-- A timeout is read back as the count of its milliseconds. -/
theorem ofDocument?_millis (t : Timeout) :
    ofDocument? (.ofValue (.int t.millis)) = some (ofMillis t.millis) := by
  obtain ⟨hlow, hhigh⟩ := t.millis_bounds
  rw [ofDocument?, Json.Document.signed64?_ofValue hlow hhigh, Option.map_some]

end Timeout

/-! ### Endpoints -/

namespace Endpoint

open Json

/-- The endpoints that can be made from their parts: with everything optional left out, and
then with one thing after another put in. -/
inductive Built : Endpoint → Prop where
  /-- Everything optional is left out. -/
  | make (friendlyName url : String) (p : Protocol) : Built (make friendlyName url p)
  /-- A timeout is given as a number of milliseconds, of sixty-four bits. -/
  | timeoutMillis {e : Endpoint} (h : Built e) (n : ℤ) (hlow : -(2 ^ 63) ≤ n)
      (hhigh : n ≤ 2 ^ 63 - 1) : Built (e.withTimeout (.ofMillis n))
  /-- A timeout is given as a span of time. -/
  | timeoutDuration {e : Endpoint} (h : Built e) (d : Duration) :
      Built (e.withTimeout (.ofDuration d))
  /-- A service description is given. -/
  | wsdlUrl {e : Endpoint} (h : Built e) (url : String) : Built (e.withWsdlUrl url)
  /-- A default method is given. -/
  | methodName {e : Endpoint} (h : Built e) (m : String) : Built (e.withMethodName m)
  /-- A number of retries is given. -/
  | maxRetries {e : Endpoint} (h : Built e) (n : ℤ) : Built (e.withMaxRetries n)

/-- What is read from the text of an endpoint. -/
def passedOn? (e : Endpoint) : Option Endpoint := do
  ofDocument? (← Document.ofText? e.toJson.renderChars)

/-- Nothing is lost of an endpoint when it is written and read again, but that its limit
may have become shorter. -/
def ComesBack (e : Endpoint) : Prop :=
  ∃ t : Timeout, e.passedOn? = some (e.withTimeout t) ∧ t.NoLonger e.timeout

/-- The number of retries that there already is comes out of the clamp as it is. -/
theorem clampRetries_toNat (n : UInt32) : clampRetries n.toNat = n := by
  have hn := n.toNat_lt
  rw [clampRetries, Int.toNat_natCast, Nat.min_eq_left (by omega), UInt32.ofNat_toNat]

/-- The members of the written form, in the order of the fields. -/
def members (e : Endpoint) : List (String × Value) :=
  [("friendly_name", .string e.friendlyName), ("url", .string e.url),
   ("type", .string e.protocol.name), ("timeout_ms", .int e.timeout.millis),
   ("wsdl_url", .ofString? e.wsdlUrl), ("method_name", .ofString? e.methodName),
   ("max_retries", .nat e.maxRetries.toNat)]

theorem toJson_eq (e : Endpoint) : e.toJson = .ofMembers e.members := rfl

/-- All fields are given, in their order. -/
theorem record?_toJson (e : Endpoint) :
    Document.record? fieldNames (.ofValue e.toJson)
      = some (e.members.map fun m => some (.ofValue m.2)) := by
  have hnames : e.members.map Prod.fst = fieldNames := rfl
  exact Document.record?_ofMembers hnames (by decide) .json

/-- What is written of an endpoint holds no number but integers of sixty-four bits. -/
theorem integersOnly_toJson (e : Endpoint) : e.toJson.IntegersOnly := by
  obtain ⟨hlow, hhigh⟩ := e.timeout.millis_bounds
  have hretries := e.maxRetries.toNat_lt
  have htext : ∀ s : Option String, (Value.ofString? s).IntegersOnly := by
    intro s
    cases s <;> simp [Value.ofString?, Value.IntegersOnly]
  rw [toJson_eq]
  apply Value.integersOnly_ofMembers
  intro m hm
  simp only [members, List.mem_cons, List.not_mem_nil, or_false] at hm
  rcases hm with rfl | rfl | rfl | rfl | rfl | rfl | rfl
  · trivial
  · trivial
  · trivial
  · simp only [Value.int, Value.IntegersOnly, minInteger, maxInteger]
    omega
  · exact htext _
  · exact htext _
  · simp only [Value.nat, Value.IntegersOnly, minInteger, maxInteger]
    omega

/-- The value of an endpoint is read as the endpoint with the timeout that the number of
its milliseconds spells. -/
theorem ofDocument?_toJson (e : Endpoint) :
    ofDocument? (.ofValue e.toJson) = some (e.withTimeout (.ofMillis e.timeout.millis)) := by
  have hprotocol : Protocol.ofDocument? (.ofValue (.string e.protocol.name)) .json
      = some e.protocol := by
    simp [Protocol.ofDocument?, Document.ofValue, Document.case?]
  have hretries : (Document.signed64? (.ofValue (.nat e.maxRetries.toNat))).map clampRetries
      = some e.maxRetries := by
    have hlt := e.maxRetries.toNat_lt
    have hread : Document.signed64? (.ofValue (.int e.maxRetries.toNat))
        = some (e.maxRetries.toNat : ℤ) :=
      Document.signed64?_ofValue (by omega) (by omega)
    rw [Value.nat, ← Value.int, hread, Option.map_some, clampRetries_toNat]
  simp only [ofDocument?, record?_toJson, members, List.map_cons, List.map_nil,
    Document.required?, Document.withDefault?, Option.bind_eq_bind, Option.bind_some,
    Document.text?_ofValue, Document.optional?_ofValue, hprotocol, hretries,
    Timeout.ofDocument?_millis]
  rfl

/-- So is its text. -/
theorem passedOn?_eq (e : Endpoint) :
    e.passedOn? = some (e.withTimeout (.ofMillis e.timeout.millis)) := by
  rw [passedOn?, Document.ofText?_renderChars e.integersOnly_toJson, Option.bind_eq_bind,
    Option.bind_some, ofDocument?_toJson]

/-- An endpoint comes back if its timeout does. -/
theorem comesBack_iff_noLonger (e : Endpoint) :
    e.ComesBack ↔ (Timeout.ofMillis e.timeout.millis).NoLonger e.timeout := by
  rw [ComesBack, passedOn?_eq]
  constructor
  · rintro ⟨t, hsame, hle⟩
    have htimeout : Timeout.ofMillis e.timeout.millis = t :=
      congrArg Endpoint.timeout (Option.some.inj hsame)
    rwa [htimeout]
  · intro hle
    exact ⟨_, rfl, hle⟩

/-- **When an endpoint comes back.**  Whatever is written of an endpoint, as a value or as
a text, is read as that endpoint with a timeout `t` in place of its own.  There is a limit
after `t` exactly if there was one.  It is no longer than it was, and then it is what it was
but for the part beyond whole milliseconds, exactly if it was at least a millisecond; from a
limit of less than that the default limit is made. -/
theorem comesBack_iff (e : Endpoint) :
    ∃ t : Timeout,
      ofDocument? (.ofValue e.toJson) = some (e.withTimeout t) ∧
      e.passedOn? = some (e.withTimeout t) ∧
      (t.deadline = none ↔ e.timeout.deadline = none) ∧
      (t.NoLonger e.timeout ↔ ¬ e.timeout.IsFleeting) ∧
      (¬ e.timeout.IsFleeting → t.deadline = e.timeout.deadline.map Duration.trimmed) ∧
      (e.timeout.IsFleeting → t = .standard) ∧
      (e.ComesBack ↔ ¬ e.timeout.IsFleeting) := by
  refine ⟨.ofMillis e.timeout.millis, e.ofDocument?_toJson, e.passedOn?_eq, ?_, ?_, ?_, ?_, ?_⟩
  · exact e.timeout.deadline_ofMillis_millis_eq_none_iff
  · exact e.timeout.noLonger_ofMillis_iff
  · exact Timeout.deadline_ofMillis_millis
  · exact Timeout.ofMillis_millis_of_fleeting
  · rw [comesBack_iff_noLonger, Timeout.noLonger_ofMillis_iff]

/-- An endpoint that is given half a millisecond. -/
def hasty : Endpoint :=
  (make "clock" "http://clock.example/" .rest).withTimeout (.ofDuration ⟨500000⟩)

/-- Half a millisecond becomes thirty seconds. -/
theorem not_comesBack_hasty :
    hasty.Built ∧ hasty.timeout.deadline = some ⟨500000⟩ ∧ ¬ hasty.ComesBack ∧
      hasty.passedOn? = some (make "clock" "http://clock.example/" .rest) := by
  have hfleeting : hasty.timeout.IsFleeting := rfl
  refine ⟨.timeoutDuration (.make _ _ _) _, rfl, ?_, ?_⟩
  · rw [comesBack_iff_noLonger, Timeout.noLonger_ofMillis_iff]
    exact not_not_intro hfleeting
  · rw [passedOn?_eq, Timeout.ofMillis_millis_of_fleeting hfleeting]
    rfl

end Endpoint

end Switchboard
