import Mathlib.Data.List.Induction
import Switchboard.Proofs.Call.Traffic
import Switchboard.Proofs.Dictionary
import Switchboard.Proofs.Fingerprint
import Switchboard.Proofs.Registry.Consistency
import Switchboard.Proofs.Text.Order

/-!
# The headers of a request on the wire

The names of headers are compared without regard to case.  A caller may give several that
differ in case alone, and what a client adds of its own gives way to what the caller gives.
Of all that, each name stands once on the wire.

## Main definitions

* `IsGiven`, `NotGiven` — the value that a caller gives under a name, in any case.
* `OnWire` — what the headers on the wire are.
* `CallParams.Proper` — parameters as a caller can give them.
* `Registry.Reached` — what calls and evictions make of an empty registry.

## Main results

* `Http.get?_sent` — a value is sent under a name exactly if it is given.
* `RestClient.onWire`, `Soap.Client.onWire` — the requests of both kinds of clients.
* `onWire_of_call` — **every request of a call has the headers it should have.**
* `onWire_of_empty`, `onWire_of_reached` — so has every request of a first call, and of any
  call to an endpoint without a bar in the fields of its identity.
-/

namespace Switchboard

/-! ### Letters -/

namespace Text.Ascii

theorem lowerChar_lowerChar (c : Char) : lowerChar (lowerChar c) = lowerChar c := by
  by_cases h : 'A' ≤ c ∧ c ≤ 'Z'
  · have hlow : 65 ≤ c.toNat := h.1
    have hhigh : c.toNat ≤ 90 := h.2
    have hlower : lowerChar c = Char.ofNat (c.toNat + 32) := if_pos h
    rw [hlower]
    refine if_neg fun hupper => ?_
    have hlow' : 65 ≤ (Char.ofNat (c.toNat + 32)).toNat := hupper.1
    have hhigh' : (Char.ofNat (c.toNat + 32)).toNat ≤ 90 := hupper.2
    have hnat := Text.Utf8.toNat_charOfNat (c.toNat + 32)
    omega
  · have hlower : lowerChar c = c := if_neg h
    rw [hlower, hlower]

theorem toList_lower (s : String) : (lower s).toList = s.toList.map lowerChar :=
  String.toList_ofList

theorem sameLetters_iff {a b : String} : SameLetters a b ↔ lower a = lower b := by
  rw [SameLetters, ← toList_lower, ← toList_lower]
  exact String.toList_inj

theorem lower_lower (s : String) : lower (lower s) = lower s := by
  refine String.toList_inj.mp ?_
  rw [toList_lower, toList_lower, List.map_map]
  exact List.map_congr_left fun c _ => lowerChar_lowerChar c

end Text.Ascii

open Text.Ascii (lower SameLetters)

/-! ### What is given -/

/-- The caller gives a value under a name: that of the greatest of the names that differ
from it in case alone, in the order of their bytes. -/
def IsGiven (given : Dictionary String) (name value : String) : Prop :=
  ∃ k, (k, value) ∈ given ∧ SameLetters k name ∧
    ∀ h ∈ given, SameLetters h.1 name → Text.Utf8.encode h.1 ≤ Text.Utf8.encode k

/-- The caller gives nothing under a name, whatever its case. -/
def NotGiven (given : Dictionary String) (name : String) : Prop :=
  ∀ h ∈ given, ¬ SameLetters h.1 name

instance (given : Dictionary String) (name : String) : Decidable (NotGiven given name) :=
  inferInstanceAs (Decidable (∀ h ∈ given, ¬ SameLetters h.1 name))

theorem encode_le_of_lt {a b : String} (h : a < b) :
    Text.Utf8.encode a ≤ Text.Utf8.encode b :=
  fun hlt => String.lt_irrefl a (String.lt_trans h (Text.Utf8.encode_lt_iff.mp hlt))

/-- Names that are given later are greater. -/
theorem isGiven_snoc {given : Dictionary String} {h : String × String}
    (hlast : ∀ g ∈ given, g.1 < h.1) (name value : String) :
    IsGiven (given ++ [h]) name value ↔
      if SameLetters h.1 name then value = h.2 else IsGiven given name value := by
  by_cases hsame : SameLetters h.1 name
  · rw [if_pos hsame]
    constructor
    · rintro ⟨k, hk, -, hmax⟩
      rcases List.mem_append.mp hk with hk | hk
      · -- a name among the earlier ones is not the greatest
        have hle := hmax h (List.mem_append_right _ List.mem_cons_self) hsame
        exact absurd (Text.Utf8.encode_lt_iff.mpr (hlast _ hk)) hle
      · exact congrArg Prod.snd (List.mem_singleton.mp hk)
    · rintro rfl
      refine ⟨h.1, List.mem_append_right _ List.mem_cons_self, hsame, fun g hg _ => ?_⟩
      rcases List.mem_append.mp hg with hg | hg
      · exact encode_le_of_lt (hlast g hg)
      · rw [List.mem_singleton.mp hg]
        exact List.le_refl _
  · rw [if_neg hsame]
    constructor
    · rintro ⟨k, hk, hkname, hmax⟩
      rcases List.mem_append.mp hk with hk | hk
      · exact ⟨k, hk, hkname, fun g hg => hmax g (List.mem_append_left _ hg)⟩
      · rw [← List.mem_singleton.mp hk] at hsame
        exact absurd hkname hsame
    · rintro ⟨k, hk, hkname, hmax⟩
      refine ⟨k, List.mem_append_left _ hk, hkname, fun g hg hgname => ?_⟩
      rcases List.mem_append.mp hg with hg | hg
      · exact hmax g hg hgname
      · rw [List.mem_singleton.mp hg] at hgname
        exact absurd hgname hsame

theorem ordered_snoc {given : Dictionary String} {h : String × String}
    (hordered : Dictionary.Ordered (given ++ [h])) :
    Dictionary.Ordered given ∧ ∀ g ∈ given, g.1 < h.1 := by
  obtain ⟨hgiven, -, hlast⟩ := List.pairwise_append.mp hordered
  exact ⟨hgiven, fun g hg => hlast g hg h List.mem_cons_self⟩

/-! ### What is sent -/

namespace Http

/-- The headers with one more, in place of one whose name differs from it in case alone. -/
def putHeader (sent : Dictionary String) (h : String × String) : Dictionary String :=
  Dictionary.insert (lower h.1) h.2 sent

/-- Headers that can be sent are put one after another. -/
theorem sent_of_foldlM {given acc sent : Dictionary String}
    (h : given.foldlM addWireHeader acc = .ok sent) : sent = given.foldl putHeader acc := by
  induction given generalizing acc with
  | nil => exact (Except.ok.inj h).symm
  | cons g given ih =>
    rw [List.foldlM_cons, addWireHeader] at h
    split at h
    · cases h
    · split at h
      · cases h
      · exact ih h

theorem sent_of_wireHeaders {given sent : Dictionary String} (h : wireHeaders given = .ok sent) :
    sent = given.foldl putHeader [] := sent_of_foldlM h

/-- Under a name the value is sent that is given. -/
theorem get?_sent {given : Dictionary String} (h : Dictionary.Ordered given)
    (name value : String) :
    Dictionary.get? (lower name) (given.foldl putHeader []) = some value ↔
      IsGiven given name value := by
  induction given using List.reverseRecOn with
  | nil =>
    constructor
    · intro hnone
      cases hnone
    · rintro ⟨k, hk, -⟩
      cases hk
  | append_singleton given g ih =>
    obtain ⟨hgiven, hlast⟩ := ordered_snoc h
    rw [List.foldl_concat, putHeader, Dictionary.get?_insert, isGiven_snoc hlast]
    by_cases hsame : SameLetters g.1 name
    · rw [if_pos hsame, if_pos (Text.Ascii.sameLetters_iff.mp hsame).symm, Option.some.injEq]
      exact eq_comm
    · have hne : ¬ lower name = lower g.1 := fun heq =>
        hsame (Text.Ascii.sameLetters_iff.mpr heq.symm)
      rw [if_neg hsame, if_neg hne, ih hgiven]

/-- Nothing is sent under a name under which nothing is given. -/
theorem get?_sent_eq_none {given : Dictionary String} {name : String} :
    Dictionary.get? (lower name) (given.foldl putHeader []) = none ↔ NotGiven given name := by
  induction given using List.reverseRecOn with
  | nil => exact ⟨fun _ _ h => absurd h List.not_mem_nil, fun _ => rfl⟩
  | append_singleton given g ih =>
    have hsame : lower name = lower g.1 ↔ SameLetters g.1 name :=
      eq_comm.trans Text.Ascii.sameLetters_iff.symm
    rw [List.foldl_concat, putHeader, Dictionary.get?_insert, NotGiven, List.forall_mem_append,
      List.forall_mem_singleton]
    by_cases h : lower name = lower g.1
    · rw [if_pos h]
      exact ⟨fun hsome => (by cases hsome), fun hnone => absurd (hsame.mp h) hnone.2⟩
    · rw [if_neg h, ih]
      exact ⟨fun hnone => ⟨hnone, fun hg => h (hsame.mpr hg)⟩, fun hnone => hnone.1⟩

/-- The names on the wire: each stands once, in lower case. -/
structure Distinct (sent : Dictionary String) : Prop where
  /-- No name stands twice. -/
  ordered : sent.Ordered
  /-- All are in lower case, so that none stands in two cases. -/
  lower : ∀ h ∈ sent, lower h.1 = h.1

theorem distinct_nil : Distinct [] where
  ordered := Dictionary.ordered_nil
  lower := fun _ h => absurd h List.not_mem_nil

theorem Distinct.insert {sent : Dictionary String} (h : Distinct sent) {name : String}
    (hname : Text.Ascii.lower name = name) (value : String) :
    Distinct (Dictionary.insert name value sent) where
  ordered := h.ordered.insert name value
  lower := fun g hg => by
    rcases Dictionary.mem_insert hg with rfl | hg
    · exact hname
    · exact h.lower g hg

theorem distinct_sent (given : Dictionary String) : Distinct (given.foldl putHeader []) := by
  induction given using List.reverseRecOn with
  | nil => exact distinct_nil
  | append_singleton given g ih =>
    rw [List.foldl_concat]
    exact ih.insert (Text.Ascii.lower_lower g.1) g.2

/-- The headers with one more, unless there is one of that name. -/
def orStandard (name value : String) (sent : Dictionary String) : Dictionary String :=
  if Dictionary.contains name sent then sent else Dictionary.insert name value sent

theorem Distinct.orStandard {sent : Dictionary String} (h : Distinct sent) {name : String}
    (hname : Text.Ascii.lower name = name) (value : String) :
    Distinct (Http.orStandard name value sent) := by
  rw [Http.orStandard]
  split
  · exact h
  · exact h.insert hname value

/-- Under other names nothing changes. -/
theorem get?_orStandard_of_ne {name k : String} (h : k ≠ name) (value : String)
    (sent : Dictionary String) :
    Dictionary.get? k (orStandard name value sent) = Dictionary.get? k sent := by
  rw [orStandard]
  split
  · rfl
  · rw [Dictionary.get?_insert, if_neg h]

/-- Under its own name it gives way to what is given. -/
theorem get?_orStandard_self {given : Dictionary String} (h : Dictionary.Ordered given)
    {sent : Dictionary String} {name k : String} (hk : k = lower name)
    (hsent : Dictionary.get? k sent = Dictionary.get? k (given.foldl putHeader []))
    (standard value : String) :
    Dictionary.get? k (orStandard k standard sent) = some value ↔
      IsGiven given name value ∨ NotGiven given name ∧ value = standard := by
  subst hk
  rw [orStandard, Dictionary.contains, hsent]
  cases hfound : Dictionary.get? (lower name) (given.foldl putHeader []) with
  | some found =>
    have hgiven : ¬ NotGiven given name := fun hnone => by
      rw [get?_sent_eq_none.mpr hnone] at hfound
      cases hfound
    rw [if_pos Option.isSome_some, hsent, get?_sent h]
    exact ⟨Or.inl, fun hor => hor.resolve_right fun hno => hgiven hno.1⟩
  | none =>
    have hnone : NotGiven given name := get?_sent_eq_none.mp hfound
    have hno : ∀ v, ¬ IsGiven given name v := fun v hv => by
      rw [(get?_sent h name v).mpr hv] at hfound
      cases hfound
    rw [if_neg (by decide), Dictionary.get?_insert, if_pos rfl, Option.some.injEq]
    constructor
    · rintro rfl
      exact Or.inr ⟨hnone, rfl⟩
    · rintro (hv | ⟨-, rfl⟩)
      · exact absurd hv (hno value)
      · rfl

end Http

/-! ### Clients -/

/-- What a body is called unless the caller names it; gRPC has no say in it. -/
def standardContentType : Protocol → Option String
  | .rest => some "application/json"
  | .form => some "application/x-www-form-urlencoded"
  | .soap => some "text/xml; charset=utf-8"
  | .grpc => none

/-- A text in quotation marks. -/
def inQuotes (s : String) : String := "\"" ++ s ++ "\""

open Http (contentTypeName)

/-- The headers of a request on the wire are those that the parameters of a call to the
endpoint ask for. -/
structure OnWire (e : Endpoint) (params : CallParams) (r : Http.Request) : Prop where
  /-- Each name stands once, whatever its case. -/
  distinct : Http.Distinct r.headers
  /-- The body is called what the caller calls it, or by the standard if there is one. -/
  contentType : ∀ value, Dictionary.get? (lower contentTypeName) r.headers = some value ↔
    IsGiven params.headers contentTypeName value ∨
      NotGiven params.headers contentTypeName ∧ r.body.isSome ∧
        standardContentType e.protocol = some value
  /-- The action of a SOAP call is what the caller says it is, by the parameter of its own
  rather than by a header, or else the name of the operation. -/
  action : e.protocol = .soap → ∀ value,
    Dictionary.get? (lower soapActionName) r.headers = some value ↔
      match params.soapAction with
      | some action => value = inQuotes action
      | none => IsGiven params.headers soapActionName value ∨
          NotGiven params.headers soapActionName ∧ value = inQuotes (params.method.getD "")
  /-- Of all other names there are those that the caller gives. -/
  others : ∀ name, ¬ SameLetters name contentTypeName →
    (e.protocol = .soap → ¬ SameLetters name soapActionName) →
    ∀ value, Dictionary.get? (lower name) r.headers = some value ↔
      IsGiven params.headers name value

section

variable {given : Dictionary String} {name value : String}

theorem header?_isNone {r : CallRequest} :
    (r.header? name).isNone ↔ NotGiven r.headers name := by
  rw [CallRequest.header?, Option.isNone_iff_eq_none, Option.map_eq_none_iff,
    List.find?_eq_none, NotGiven]
  simp only [decide_eq_true_eq]

end

namespace Http.RestClient

theorem headers_of_request {c : RestClient} {q : CallRequest} {r : Request}
    (h : c.request q = .ok r) :
    r.headers = if r.body.isSome
      then orStandard contentTypeName c.contentType (q.headers.foldl putHeader [])
      else q.headers.foldl putHeader [] := by
  rw [request] at h
  split at h
  · cases h
  · cases hbody : c.body q.body with
    | error f =>
      rw [hbody] at h
      cases h
    | ok body =>
      cases hheaders : wireHeaders q.headers with
      | error f =>
        rw [hbody, hheaders] at h
        cases h
      | ok hs =>
        rw [hbody, hheaders] at h
        cases h
        obtain rfl := sent_of_wireHeaders hheaders
        -- looking for the header among those that are given or among those that are sent
        have hlooked : (q.header? contentTypeName).isNone
            = !Dictionary.contains contentTypeName (q.headers.foldl putHeader []) := by
          rw [Bool.eq_iff_iff, header?_isNone, Bool.not_eq_true', Dictionary.contains,
            Option.isSome_eq_false_iff, Option.isNone_iff_eq_none]
          exact get?_sent_eq_none.symm
        show (if body.isSome ∧ _ then _ else _) = if body.isSome then _ else _
        rw [hlooked, orStandard]
        cases body with
        | none => rfl
        | some bs =>
          cases Dictionary.contains contentTypeName (q.headers.foldl putHeader []) <;> rfl

end Http.RestClient

namespace Soap

theorem sent_of_headers {operation : String} {given sent : Dictionary String}
    (h : headers operation given = .ok sent) :
    sent = Http.orStandard actionName (inQuotes operation)
      (Http.orStandard contentTypeName contentType (given.foldl Http.putHeader [])) := by
  cases hheaders : Http.wireHeaders given with
  | error f =>
    rw [headers, hheaders] at h
    cases h
  | ok hs =>
    obtain rfl := Http.sent_of_wireHeaders hheaders
    rw [headers, hheaders] at h
    change (if Dictionary.contains actionName (Http.orStandard contentTypeName contentType _)
      then _ else _) = _ at h
    rw [Http.orStandard]
    split at h
    · next hthere =>
      rw [if_pos hthere]
      exact (Except.ok.inj h).symm
    · next hmissing =>
      rw [if_neg hmissing]
      split at h
      · exact (Except.ok.inj h).symm
      · cases h

theorem headers_of_request {c : Client} {q : CallRequest} {r : Http.Request}
    (h : c.request q = .ok r) :
    r.body.isSome ∧ r.headers = Http.orStandard actionName (inQuotes q.method)
      (Http.orStandard contentTypeName contentType (q.headers.foldl Http.putHeader [])) := by
  rw [Client.request] at h
  cases hpayload : payload c.ns q.method q.body with
  | error f =>
    rw [hpayload] at h
    cases h
  | ok body =>
    cases hheaders : headers q.method q.headers with
    | error f =>
      rw [hpayload, hheaders] at h
      cases h
    | ok hs =>
      rw [hpayload, hheaders] at h
      cases h
      exact ⟨rfl, sent_of_headers hheaders⟩

end Soap

/-! ### The parameter for the action -/

/-- What is given under a name depends on the headers of that name alone. -/
theorem isGiven_congr {given given' : Dictionary String} {name : String}
    (h : ∀ g : String × String, SameLetters g.1 name → (g ∈ given ↔ g ∈ given')) (value : String) :
    IsGiven given name value ↔ IsGiven given' name value := by
  constructor
  · rintro ⟨k, hk, hname, hmax⟩
    exact ⟨k, (h _ hname).mp hk, hname, fun g hg hgname => hmax g ((h g hgname).mpr hg) hgname⟩
  · rintro ⟨k, hk, hname, hmax⟩
    exact ⟨k, (h _ hname).mpr hk, hname, fun g hg hgname => hmax g ((h g hgname).mp hg) hgname⟩

theorem notGiven_congr {given given' : Dictionary String} {name : String}
    (h : ∀ g : String × String, SameLetters g.1 name → (g ∈ given ↔ g ∈ given')) :
    NotGiven given name ↔ NotGiven given' name :=
  ⟨fun hno g hg hname => hno g ((h g hname).mpr hg) hname,
    fun hno g hg hname => hno g ((h g hname).mp hg) hname⟩

theorem mem_withAction {action : String} {given : Dictionary String} {g : String × String} :
    g ∈ withAction action given ↔
      g = (soapActionName, inQuotes action) ∨ g ∈ given ∧ ¬ SameLetters g.1 soapActionName := by
  have hothers : ∀ h ∈ given.filter fun h => ¬ SameLetters h.1 soapActionName,
      h.1 ≠ soapActionName := by
    intro h hh heq
    have hname := (List.mem_filter.mp hh).2
    rw [heq] at hname
    exact absurd (SameLetters.refl _) (of_decide_eq_true hname)
  rw [withAction, Dictionary.mem_insert_iff hothers, List.mem_filter, decide_eq_true_eq]
  rfl

theorem ordered_withAction {given : Dictionary String} (h : Dictionary.Ordered given)
    (action : String) : Dictionary.Ordered (withAction action given) :=
  (h.filter _).insert _ _

/-- It stands in place of any header of that name. -/
theorem isGiven_withAction_self {action value : String} {given : Dictionary String} :
    IsGiven (withAction action given) soapActionName value ↔ value = inQuotes action := by
  constructor
  · rintro ⟨k, hk, hname, -⟩
    rcases mem_withAction.mp hk with heq | ⟨-, hno⟩
    · exact congrArg Prod.snd heq
    · exact absurd hname hno
  · rintro rfl
    refine ⟨soapActionName, mem_withAction.mpr (Or.inl rfl), SameLetters.refl _, ?_⟩
    intro g hg hname
    rcases mem_withAction.mp hg with rfl | ⟨-, hno⟩
    · exact List.le_refl _
    · exact absurd hname hno

theorem notGiven_withAction_self (action : String) (given : Dictionary String) :
    ¬ NotGiven (withAction action given) soapActionName :=
  fun hno => hno _ (mem_withAction.mpr (Or.inl rfl)) (SameLetters.refl _)

/-- Other headers stay. -/
theorem mem_withAction_of_ne {name : String} (h : ¬ SameLetters name soapActionName)
    (action : String) (given : Dictionary String) (g : String × String)
    (hname : SameLetters g.1 name) : g ∈ withAction action given ↔ g ∈ given := by
  have hno : ¬ SameLetters g.1 soapActionName := fun hg => h (hname.symm.trans hg)
  rw [mem_withAction]
  constructor
  · rintro (rfl | ⟨hg, -⟩)
    · exact absurd (SameLetters.refl _) hno
    · exact hg
  · exact fun hg => Or.inr ⟨hg, hno⟩

/-! ### Requests -/

/-- The protocol that a client speaks. -/
def ProtocolClient.protocol : ProtocolClient → Protocol
  | .rest c => if c.asForm then .form else .rest
  | .soap _ => .soap
  | .grpc _ => .grpc

theorem lower_contentTypeName : lower contentTypeName = contentTypeName := by decide

theorem lower_actionName : lower Soap.actionName = Soap.actionName := by decide

theorem lower_soapActionName : lower soapActionName = Soap.actionName := by decide

theorem lower_ne {name other : String} (h : ¬ SameLetters name other) : lower name ≠ lower other :=
  fun heq => h (Text.Ascii.sameLetters_iff.mpr heq)

namespace Http.RestClient

theorem standardContentType_eq (c : RestClient) :
    standardContentType (ProtocolClient.rest c).protocol = some c.contentType := by
  rw [ProtocolClient.protocol, contentType]
  cases c.asForm <;> rfl

theorem protocol_ne_soap (c : RestClient) : (ProtocolClient.rest c).protocol ≠ .soap := by
  rw [ProtocolClient.protocol]
  cases c.asForm <;> decide

/-- The request of a REST or a form call. -/
theorem onWire {c : RestClient} {e : Endpoint} {params : CallParams} {r : Request}
    (hparams : Dictionary.Ordered params.headers)
    (hprotocol : (ProtocolClient.rest c).protocol = e.protocol)
    (h : c.request (.prepare e params) = .ok r) : OnWire e params r := by
  have hheaders := headers_of_request h
  -- the parameter for the action has no say
  have hgiven : (CallRequest.prepare e params).headers = params.headers := by
    show headersFor e params = params.headers
    rw [headersFor, ← hprotocol, ProtocolClient.protocol]
    cases c.asForm <;> rfl
  rw [hgiven] at hheaders
  have hstandard : ∀ value,
      standardContentType e.protocol = some value ↔ value = c.contentType := by
    intro value
    rw [← hprotocol, standardContentType_eq, Option.some.injEq]
    exact eq_comm
  constructor
  case distinct =>
    rw [hheaders]
    split
    · exact (distinct_sent _).orStandard lower_contentTypeName _
    · exact distinct_sent _
  case contentType =>
    intro value
    rw [hheaders, hstandard]
    cases r.body.isSome with
    | true =>
      rw [if_pos rfl, lower_contentTypeName,
        get?_orStandard_self hparams lower_contentTypeName.symm rfl]
      simp
    | false =>
      rw [if_neg (by decide), get?_sent hparams]
      simp
  case action => exact fun hsoap => absurd (hprotocol.trans hsoap) c.protocol_ne_soap
  case others =>
    intro name hname _ value
    have hne : lower name ≠ contentTypeName := lower_contentTypeName ▸ lower_ne hname
    rw [hheaders]
    split
    · rw [get?_orStandard_of_ne hne, get?_sent hparams]
    · rw [get?_sent hparams]

end Http.RestClient

namespace Soap

section

variable {e : Endpoint} {params : CallParams}

theorem headersFor_of_action (hsoap : e.protocol = .soap) {action : String}
    (h : params.soapAction = some action) :
    headersFor e params = withAction action params.headers := by
  rw [headersFor, hsoap, h]

theorem headersFor_of_none (hsoap : e.protocol = .soap) (h : params.soapAction = none) :
    headersFor e params = params.headers := by
  rw [headersFor, hsoap, h]

theorem ordered_headersFor (hsoap : e.protocol = .soap)
    (h : Dictionary.Ordered params.headers) : Dictionary.Ordered (headersFor e params) := by
  cases haction : params.soapAction with
  | none =>
    rw [headersFor_of_none hsoap haction]
    exact h
  | some action =>
    rw [headersFor_of_action hsoap haction]
    exact ordered_withAction h action

/-- Headers other than that for the action are sent as they are given. -/
theorem mem_headersFor_of_ne (hsoap : e.protocol = .soap) {name : String}
    (h : ¬ SameLetters name soapActionName) (g : String × String) (hname : SameLetters g.1 name) :
    g ∈ headersFor e params ↔ g ∈ params.headers := by
  cases haction : params.soapAction with
  | none => rw [headersFor_of_none hsoap haction]
  | some action =>
    rw [headersFor_of_action hsoap haction]
    exact mem_withAction_of_ne h action params.headers g hname

/-- The request of a SOAP call. -/
theorem Client.onWire {c : Client} {r : Http.Request} (hparams : Dictionary.Ordered params.headers)
    (hsoap : e.protocol = .soap) (h : c.request (.prepare e params) = .ok r) :
    OnWire e params r := by
  obtain ⟨hbody, hsent⟩ := headers_of_request h
  have hordered := ordered_headersFor hsoap hparams
  have hmethod : (CallRequest.prepare e params).method = params.method.getD "" := by
    show methodFor e params = _
    rw [methodFor, hsoap]
    exact if_neg fun hgrpc => by cases hgrpc.1
  have hheaders : r.headers = Http.orStandard actionName (inQuotes (params.method.getD ""))
      (Http.orStandard contentTypeName contentType
        ((headersFor e params).foldl Http.putHeader [])) := hmethod ▸ hsent
  have hcontent : ¬ SameLetters contentTypeName soapActionName := by decide
  have hne : Soap.actionName ≠ contentTypeName := by decide
  constructor
  case distinct =>
    rw [hheaders]
    exact ((Http.distinct_sent _).orStandard lower_contentTypeName _).orStandard
      lower_actionName _
  case contentType =>
    intro value
    rw [hheaders, lower_contentTypeName, Http.get?_orStandard_of_ne hne.symm,
      Http.get?_orStandard_self hordered lower_contentTypeName.symm rfl,
      isGiven_congr (mem_headersFor_of_ne hsoap hcontent),
      notGiven_congr (mem_headersFor_of_ne hsoap hcontent), hsoap, hbody]
    simp [standardContentType, contentType, eq_comm]
  case action =>
    intro _ value
    rw [hheaders, lower_soapActionName, Http.get?_orStandard_self hordered
      lower_soapActionName.symm (Http.get?_orStandard_of_ne hne _ _)]
    cases haction : params.soapAction with
    | none =>
      show IsGiven (headersFor e params) _ _ ∨ NotGiven (headersFor e params) _ ∧ _ ↔ _
      rw [headersFor_of_none hsoap haction]
    | some action =>
      show IsGiven (headersFor e params) _ _ ∨ NotGiven (headersFor e params) _ ∧ _ ↔ _
      rw [headersFor_of_action hsoap haction, isGiven_withAction_self]
      exact ⟨fun hor => hor.resolve_right fun hno => notGiven_withAction_self _ _ hno.1, Or.inl⟩
  case others =>
    intro name hname haction value
    have hname' : lower name ≠ contentTypeName := lower_contentTypeName ▸ lower_ne hname
    have haction' : lower name ≠ actionName := lower_soapActionName ▸ lower_ne (haction hsoap)
    rw [hheaders, Http.get?_orStandard_of_ne haction', Http.get?_orStandard_of_ne hname',
      Http.get?_sent hordered]
    exact isGiven_congr (mem_headersFor_of_ne hsoap (haction hsoap)) value

end

end Soap

/-! ### Calls -/

/-- Parameters as a caller can give them: with headers in the order of their names, or in a
map of JSON values whose objects are in that order. -/
inductive CallParams.Proper : CallParams → Prop where
  /-- They are given as they are. -/
  | typed {params : CallParams} (h : Dictionary.Ordered params.headers) : Proper params
  /-- They are read from a map. -/
  | read (m : Dictionary Json.Value) (h : (Json.Value.object m).Ordered) : Proper (.ofMap m)

theorem ordered_of_mem {ms : List (String × Json.Value)} (h : Json.Value.OrderedMembers ms)
    {m : String × Json.Value} (hm : m ∈ ms) : m.2.Ordered := by
  induction ms with
  | nil => cases hm
  | cons m' ms ih =>
    obtain ⟨name, v⟩ := m'
    rw [Json.Value.OrderedMembers] at h
    rcases List.mem_cons.mp hm with rfl | hm
    · exact h.1
    · exact ih h.2 hm

theorem CallParams.Proper.ordered {params : CallParams} (h : params.Proper) :
    Dictionary.Ordered params.headers := by
  cases h with
  | typed h => exact h
  | read m h =>
    rw [Json.Value.Ordered] at h
    show Dictionary.Ordered (Option.getD _ [])
    cases hfound : (Dictionary.get? "headers" m).bind Json.Value.object? with
    | none => exact Dictionary.ordered_nil
    | some ms =>
      obtain ⟨v, hv, hobject⟩ := Option.bind_eq_some_iff.mp hfound
      have hms : v = .object ms := by
        cases v with
        | object ms' =>
          cases hobject
          rfl
        | _ => cases hobject
      have hvalue := ordered_of_mem h.2 (Dictionary.mem_of_get? hv)
      rw [hms, Json.Value.Ordered] at hvalue
      refine Dictionary.Ordered.filterMap hvalue.1 fun member header hheader => ?_
      obtain ⟨s, -, rfl⟩ := Option.map_eq_some_iff.mp hheader
      rfl

/-- The client of an endpoint speaks its protocol. -/
theorem protocol_of_setUp {fs : FileSystem} {e : Endpoint} {config : Connection}
    {p : ProtocolClient} (h : ProtocolClient.setUp fs e config = .ok p) :
    p.protocol = e.protocol := by
  rw [ProtocolClient.setUp] at h
  cases hprotocol : e.protocol with
  | grpc =>
    rw [hprotocol] at h
    cases hbuild : Grpc.Channel.build fs e config with
    | error t =>
      rw [hbuild] at h
      cases h
    | ok ch =>
      rw [hbuild] at h
      cases h
      rfl
  | _ =>
    rw [hprotocol] at h
    cases hurl : ProtocolClient.urlOf e with
    | error t =>
      rw [hurl] at h
      cases h
    | ok url =>
      cases hsetUp : Http.setUp fs config none with
      | error t =>
        rw [hurl, hsetUp] at h
        cases h
      | ok _ =>
        rw [hurl, hsetUp] at h
        cases h
        rfl

/-! ### Calls -/

section

variable {σ : Type} {fs : FileSystem} {net : Network σ} {e : Endpoint} {config : Connection}
  {r r' : Registry ProtocolClient} {s s' : σ} {c : Client ProtocolClient}

/-- A client that is built is set up for its endpoint. -/
theorem setUp_of_create {p : ProtocolClient}
    (h : ((networked fs net).create e config s).1 = .ok p) :
    ProtocolClient.setUp fs e config = .ok p := by
  simp only [networked] at h
  cases hsetUp : ProtocolClient.setUp fs e config with
  | error t =>
    rw [hsetUp] at h
    cases h
  | ok p' =>
    rw [hsetUp] at h
    cases h
    rfl

theorem protocol_of_getOrCreate
    (hkept : ∀ c, r.lookup (.of e config) = some c → c.driver.protocol = e.protocol)
    (h : r.getOrCreate ((networked fs net).create e config) e config s = (.ok c, r', s')) :
    c.driver.protocol = e.protocol := by
  rcases Registry.getOrCreate_ok h with ⟨hlookup, -⟩ | ⟨-, p, hcreate, rfl, -⟩
  · exact hkept c hlookup
  · exact protocol_of_setUp (setUp_of_create hcreate)

/-- Nothing is sent without a client. -/
theorem exists_client_of_sent {params : CallParams} {t : Transmission}
    (h : t ∈ (call (networked fs net.recording) e params config r (s, [])).2.2.2) :
    e.validate = .ok () ∧ ∃ c r' s',
      r.getOrCreate ((networked fs net).create e config) e config s = (.ok c, r', s') := by
  by_cases hhindered : Hindered (networked fs net) e config r s
  · rw [(traffic_of_hindered params hhindered).2.1] at h
    cases h
  · cases hvalid : e.validate with
    | error f => exact absurd (Or.inl ⟨f, hvalid⟩) hhindered
    | ok _ =>
      rcases hclient : r.getOrCreate ((networked fs net).create e config) e config s
        with ⟨f | c, r', s'⟩
      · exact absurd (Or.inr ⟨f, by rw [hclient]⟩) hhindered
      · exact ⟨rfl, c, r', s', rfl⟩

/-- What is sent with a client that speaks the protocol of the endpoint. -/
theorem onWire_of_client {params : CallParams} (hparams : params.Proper)
    (hvalid : e.validate = .ok ())
    (hclient : r.getOrCreate ((networked fs net).create e config) e config s = (.ok c, r', s'))
    (hprotocol : c.driver.protocol = e.protocol) {request : Http.Request}
    {answer : Timed Http.Exchange}
    (hsent : .http request answer
      ∈ (call (networked fs net.recording) e params config r (s, [])).2.2.2) :
    OnWire e params request := by
  obtain ⟨run, visited, -, -, -, hlog, -⟩ := exists_visited params hvalid hclient
  rw [hlog] at hsent
  obtain ⟨x, -, hx⟩ := List.mem_flatMap.mp hsent
  rcases (sends_sentIn fs net r' c (.prepare e params) x).written request answer hx with
    ⟨rest, hrest, hrequest⟩ | ⟨soap, hsoap, hrequest⟩
  · rw [hrest] at hprotocol
    exact rest.onWire hparams.ordered hprotocol hrequest
  · rw [hsoap] at hprotocol
    exact soap.onWire hparams.ordered hprotocol.symm hrequest

end

/-- **Every request of a call has the headers it should have**, whatever the caller gives and
over every network, if the client that is kept for the endpoint, where there is one, speaks
the protocol of the endpoint. -/
theorem onWire_of_call {σ : Type} (fs : FileSystem) (net : Network σ) (e : Endpoint)
    (params : CallParams) (config : Connection) (r : Registry ProtocolClient) (s : σ)
    (hparams : params.Proper)
    (hkept : ∀ c, r.lookup (.of e config) = some c → c.driver.protocol = e.protocol)
    (request : Http.Request) (answer : Timed Http.Exchange)
    (hsent : .http request answer
      ∈ (call (networked fs net.recording) e params config r (s, [])).2.2.2) :
    OnWire e params request := by
  obtain ⟨hvalid, c, r', s', hclient⟩ := exists_client_of_sent hsent
  exact onWire_of_client hparams hvalid hclient (protocol_of_getOrCreate hkept hclient) hsent

/-- Parameters with a name in two cases, and with one of a header that is added as well. -/
def twoCases : CallParams where
  method := none
  body := .text "hello"
  headers := [("CONTENT-TYPE", "text/plain"), ("X-Trace", "1"), ("x-trace", "2")]
  soapAction := some "ignored"

theorem onWire_of_call_twoCases :
    ∃ (request : Http.Request) (answer : Timed Http.Exchange),
      .http request answer ∈ (call (networked (.ofList []) isolated.recording)
        (.make "orders" "https://orders" .rest) twoCases .standard .empty ((), [])).2.2.2 ∧
      Dictionary.get? "x-trace" request.headers = some "2" ∧
      Dictionary.get? "content-type" request.headers = some "text/plain" ∧
      Dictionary.get? "soapaction" request.headers = none := by
  have hsent : (call (networked (.ofList []) isolated.recording)
      (.make "orders" "https://orders" .rest) twoCases .standard .empty ((), [])).2.2.2.map
        Transmission.isHttp = [true] := by
    decide +kernel
  obtain ⟨t, hlog, ht⟩ := List.map_eq_singleton_iff.mp hsent
  cases t with
  | query ch q => cases ht
  | invoke ch o => cases ht
  | http request answer =>
    have hmem := hlog ▸ List.mem_singleton_self (Transmission.http request answer)
    have honWire := onWire_of_call (.ofList []) isolated (.make "orders" "https://orders" .rest)
      twoCases .standard .empty () (.typed (by decide)) (fun c hc => by cases hc) request answer
      hmem
    refine ⟨request, answer, hmem, ?_, ?_, ?_⟩
    · refine (honWire.others "X-Trace" (by decide) (fun hsoap => by cases hsoap) "2").mpr ?_
      exact ⟨"x-trace", by decide, by decide, by decide⟩
    · refine (honWire.contentType "text/plain").mpr (Or.inl ?_)
      exact ⟨"CONTENT-TYPE", by decide, by decide, by decide⟩
    · refine Option.eq_none_iff_forall_ne_some.mpr fun value hvalue => ?_
      -- the parameter for the action has no say in a plain call
      obtain ⟨k, hk, hname, -⟩ := (honWire.others "soapaction" (by decide)
        (fun hsoap => by cases hsoap) value).mp hvalue
      have hno : NotGiven twoCases.headers "soapaction" := by decide
      exact hno _ hk hname

/-! ### The clients that are kept -/

/-- What calls and evictions make of a registry that is empty at first, over any networks. -/
inductive Registry.Reached (fs : FileSystem) : Registry ProtocolClient → Prop
  /-- At first. -/
  | empty : Reached fs .empty
  /-- After a call. -/
  | call {σ : Type} (net : Network σ) (e : Endpoint) (params : CallParams) (config : Connection)
    (s : σ) {r : Registry ProtocolClient} : Reached fs r →
      Reached fs (Switchboard.call (networked fs net) e params config r s).2.1
  /-- After the client of an endpoint was evicted. -/
  | remove (e : Endpoint) (config : Connection) {r : Registry ProtocolClient} : Reached fs r →
      Reached fs (r.remove e config).2
  /-- After all clients were evicted. -/
  | clear {r : Registry ProtocolClient} : Reached fs r → Reached fs r.clear.2

/-- Every client that is kept was set up for its endpoint, and stands under its fingerprint. -/
def Registry.SetUp (fs : FileSystem) (r : Registry ProtocolClient) : Prop :=
  ∀ k c, (k, c) ∈ r.entries → ∃ config, k = (Fingerprint.of c.endpoint config).digits ∧
    ProtocolClient.setUp fs c.endpoint config = .ok c.driver

section

variable {fs : FileSystem} {r : Registry ProtocolClient}

theorem Registry.SetUp.enter (h : r.SetUp fs) {e : Endpoint} {config : Connection}
    {p : ProtocolClient} (hp : ProtocolClient.setUp fs e config = .ok p) :
    (r.enter e (.of e config) p).2.SetUp fs := by
  intro k c hmem
  rcases Dictionary.mem_insert hmem with hnew | hold
  · obtain ⟨rfl, rfl⟩ := Prod.mk.inj hnew
    exact ⟨config, rfl, hp⟩
  · exact h k c hold

theorem Registry.SetUp.call (h : r.SetUp fs) {σ : Type} (net : Network σ) (e : Endpoint)
    (params : CallParams) (config : Connection) (s : σ) :
    (Switchboard.call (networked fs net) e params config r s).2.1.SetUp fs := by
  cases hvalid : e.validate with
  | error f =>
    rw [call_of_invalid hvalid]
    exact h
  | ok _ =>
    rcases hclient : r.getOrCreate ((networked fs net).create e config) e config s
      with ⟨f | c, r', s'⟩
    · rw [call_of_error hvalid hclient, Registry.registry_of_getOrCreate_error hclient]
      exact h
    · rw [call_of_client hvalid hclient rfl]
      rcases Registry.getOrCreate_ok hclient with ⟨-, rfl⟩ | ⟨-, p, hcreate, -, rfl⟩
      · exact h
      · exact h.enter (setUp_of_create hcreate)

/-- **Whatever calls and evictions there were.** -/
theorem Registry.Reached.setUp (h : Registry.Reached fs r) : r.SetUp fs := by
  induction h with
  | empty => exact fun k c hmem => absurd hmem List.not_mem_nil
  | call net e params config s _ ih => exact ih.call net e params config s
  | @remove e config r _ ih =>
    have hentries : (r.remove e config).2.entries
        = Dictionary.erase (Fingerprint.of e config).digits r.entries := by
      rw [Registry.remove, Registry.take]
      cases r.lookup (.of e config) with
      | none => rfl
      | some c => exact Registry.entries_close c _
    intro k c hmem
    rw [hentries] at hmem
    exact ih k c (List.mem_of_mem_filter hmem)
  | @clear r _ ih =>
    have hentries : r.clear.2.entries = [] := by
      rw [Registry.clear, Registry.drain]
      exact Registry.entries_foldl_close _ _
    intro k c hmem
    rw [hentries] at hmem
    cases hmem

/-- The client that is kept under the fingerprint of an identity without a bar speaks its
protocol, unless the digest has a collision. -/
theorem Registry.SetUp.protocol_of_lookup (h : r.SetUp fs) {e : Endpoint} {config : Connection}
    (hplain : Fingerprint.Plain e config) {c : Client ProtocolClient}
    (hlookup : r.lookup (.of e config) = some c) :
    c.driver.protocol = e.protocol ∨ ∃ config',
      Fingerprint.Collision (Fingerprint.key c.endpoint config') (Fingerprint.key e config) := by
  obtain ⟨config', hdigits, hsetUp⟩ := h _ c (Dictionary.mem_of_get? hlookup)
  have hof : Fingerprint.of c.endpoint config' = .of e config :=
    Registry.digits_inj.mp hdigits.symm
  rcases Fingerprint.of_eq_iff.mp hof with hkey | hcollision
  · rw [protocol_of_setUp hsetUp, (hplain.sameIdentity hkey).protocol]
    exact .inl rfl
  · exact .inr ⟨config', hcollision⟩

variable {σ : Type} {net : Network σ} {e : Endpoint} {params : CallParams} {config : Connection}
  {s : σ} {request : Http.Request} {answer : Timed Http.Exchange}

/-- The headers of a first call. -/
theorem onWire_of_empty (hparams : params.Proper)
    (hsent : .http request answer
      ∈ (call (networked fs net.recording) e params config .empty (s, [])).2.2.2) :
    OnWire e params request := by
  obtain ⟨hvalid, c, r', s', hclient⟩ := exists_client_of_sent hsent
  have hprotocol : c.driver.protocol = e.protocol :=
    protocol_of_getOrCreate (fun c hlookup => by cases hlookup) hclient
  exact onWire_of_client hparams hvalid hclient hprotocol hsent

/-- The headers of any call to an endpoint without a bar in the fields of its identity,
whatever calls and evictions there were before, unless the digest has a collision. -/
theorem onWire_of_reached (hr : Registry.Reached fs r) (hplain : Fingerprint.Plain e config)
    (hparams : params.Proper)
    (hsent : .http request answer
      ∈ (call (networked fs net.recording) e params config r (s, [])).2.2.2) :
    OnWire e params request ∨ ∃ c config', r.lookup (.of e config) = some c ∧
      Fingerprint.Collision (Fingerprint.key c.endpoint config') (Fingerprint.key e config) := by
  by_cases hkept : ∀ c, r.lookup (.of e config) = some c → c.driver.protocol = e.protocol
  · obtain ⟨hvalid, c, r', s', hclient⟩ := exists_client_of_sent hsent
    exact .inl
      (onWire_of_client hparams hvalid hclient (protocol_of_getOrCreate hkept hclient) hsent)
  · push Not at hkept
    obtain ⟨c, hlookup, hprotocol⟩ := hkept
    obtain ⟨config', hcollision⟩ :=
      (hr.setUp.protocol_of_lookup hplain hlookup).resolve_left hprotocol
    exact .inr ⟨c, config', hlookup, hcollision⟩

end

end Switchboard
