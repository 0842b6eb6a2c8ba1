import Switchboard.Grpc.Client
import Switchboard.Proofs.Text.Runs

/-!
# The paths of methods

A path is read from the back: the method is what stands behind the last slash, and the
service is all that stands between that slash and the first.  So the service may hold slashes
and the method may not, and a path has one reading at most.

## Main definitions

* `MethodPath.Spells` — the text is the path of the method.

## Main results

* `MethodPath.splitLast?_eq_some_iff` — the two sides of the last slash.
* `MethodPath.parse_eq_ok_iff` — which texts are read, and as what.
* `MethodPath.parse_spells` — **which texts are paths of methods**: those are read as the one
  method that they spell, and are called on as they stand; all others are refused.
-/

namespace Switchboard.Grpc.MethodPath

variable {cs front back : List Char} {name : String} {p p' : MethodPath}

/-- The text is the path of the method: a slash, a service, a slash, and a name in which
there is no slash, neither of the two being empty. -/
structure Spells (name : String) (p : MethodPath) : Prop where
  /-- The two slashes stand in front of the service and of the name. -/
  name_eq : name = "/" ++ p.service ++ "/" ++ p.method
  /-- The service is not empty. -/
  service_ne : p.service ≠ ""
  /-- The name is not empty. -/
  method_ne : p.method ≠ ""
  /-- There is no slash in the name. -/
  notMem : '/' ∉ p.method.toList

/-! ### The last slash -/

theorem splitLast?_mark (h : '/' ∉ back) :
    splitLast? (front ++ '/' :: back) = some (front, back) := by
  simp only [splitLast?, Text.dropWhile_reverse_mark h, Text.takeWhile_reverse_mark h,
    List.reverse_reverse]

/-- What stands before and after the last slash is found, if there is a slash. -/
theorem splitLast?_eq_some_iff :
    splitLast? cs = some (front, back) ↔ cs = front ++ '/' :: back ∧ '/' ∉ back := by
  constructor
  · intro h
    by_cases hslash : '/' ∈ cs
    · obtain ⟨front', back', rfl, hfree⟩ := Text.exists_lastMark hslash
      rw [splitLast?_mark hfree] at h
      cases h
      exact ⟨rfl, hfree⟩
    · simp only [splitLast?, Text.dropWhile_reverse_of_notMem hslash] at h
      cases h
  · rintro ⟨rfl, hfree⟩
    exact splitLast?_mark hfree

/-! ### Reading -/

theorem Spells.toList_eq (h : Spells name p) :
    name.toList = '/' :: (p.service.toList ++ '/' :: p.method.toList) := by
  rw [h.name_eq]
  simp

theorem Spells.ne_empty (h : Spells name p) : name ≠ "" := by
  rintro rfl
  simpa using h.toList_eq

/-- A text that spells a method is read as that method. -/
theorem Spells.ofChars?_eq (h : Spells name p) : ofChars? name.toList = some p := by
  have hservice : p.service.toList ≠ [] := by simpa using h.service_ne
  have hmethod : p.method.toList ≠ [] := by simpa using h.method_ne
  rw [h.toList_eq, ofChars?, splitLast?_mark h.notMem]
  simp [hservice, hmethod]

/-- What is read as a method spells it. -/
theorem spells_of_ofChars? (h : ofChars? cs = some p) : Spells (String.ofList cs) p := by
  unfold ofChars? at h
  split at h
  · next cs =>
    split at h
    · next front back hsplit =>
      obtain ⟨rfl, hfree⟩ := splitLast?_eq_some_iff.mp hsplit
      split at h
      · cases h
      · next hparts =>
        simp only [not_or] at hparts
        cases h
        refine ⟨?_, ?_, ?_, ?_⟩
        · apply String.toList_inj.mp
          simp
        · simpa using hparts.1
        · simpa using hparts.2
        · simpa using hfree
    · cases h
  · cases h

/-- The texts that are read are those that spell a method, and they are read as it. -/
theorem parse_eq_ok_iff : parse name = .ok p ↔ Spells name p := by
  constructor
  · intro h
    rw [parse] at h
    split at h
    · cases h
    · split at h
      · next q hchars =>
        cases h
        simpa using spells_of_ofChars? hchars
      · cases h
  · intro h
    rw [parse, if_neg h.ne_empty, h.ofChars?_eq]

/-- Two methods have different paths. -/
theorem Spells.unique (h : Spells name p) (h' : Spells name p') : p = p' := by
  have hread : parse name = .ok p' := parse_eq_ok_iff.mpr h'
  rw [parse_eq_ok_iff.mpr h] at hread
  exact Except.ok.inj hread

/-- A text that is not read is refused as a name that is missing or malformed. -/
theorem kind_of_parse_eq_error {f : Failure} (h : parse name = .error f) :
    f.kind = .validation := by
  rw [parse] at h
  split at h
  · cases h
    rfl
  · split at h
    · cases h
    · cases h
      rfl

/-- The path on which a call is sent is the method that its request names. -/
theorem path_of_pathOf {r : CallRequest} (h : pathOf r = .ok p) : p.path = r.method := by
  rw [pathOf] at h
  cases hparse : parse r.method with
  | error f =>
    rw [hparse] at h
    cases h
  | ok q =>
    rw [hparse] at h
    change (if isPath q.path.toList = true then Except.ok q else _) = _ at h
    split at h
    · cases h
      exact (parse_eq_ok_iff.mp hparse).name_eq.symm
    · cases h

/-- **Which texts are paths of methods.**  A text is read exactly if it is a slash, a service,
a slash and a name without one, and then as that service and that name, of which there are no
others.  Its path is the text as it stands, also where a call is sent, and is read as the same
method again.  Every other text is refused as invalid. -/
theorem parse_spells (name : String) :
    (∀ p, parse name = .ok p ↔ Spells name p) ∧
      (∀ p, Spells name p →
        p.path = name ∧ parse p.path = .ok p ∧ ∀ p', Spells name p' → p' = p) ∧
      (∀ r : CallRequest, r.method = name → ∀ p, pathOf r = .ok p → p.path = name) ∧
      ((∀ p, ¬ Spells name p) → ∃ f, parse name = .error f ∧ f.kind = .validation) := by
  refine ⟨fun p => parse_eq_ok_iff, ?_, ?_, ?_⟩
  · intro p h
    have hpath : p.path = name := h.name_eq.symm
    refine ⟨hpath, ?_, ?_⟩
    · rw [hpath]
      exact parse_eq_ok_iff.mpr h
    · intro p' h'
      exact h'.unique h
  · intro r hmethod p h
    rw [path_of_pathOf h, hmethod]
  · intro hnone
    cases hparse : parse name with
    | ok p => exact absurd (parse_eq_ok_iff.mp hparse) (hnone p)
    | error f => exact ⟨f, rfl, kind_of_parse_eq_error hparse⟩

/-- The service may hold slashes, also at its ends; but it may not be missing. -/
theorem parse_spells_slashes :
    Spells "///x//get" ⟨"//x/", "get"⟩ ∧ parse "///x//get" = .ok ⟨"//x/", "get"⟩ ∧
      (∀ p, ¬ Spells "//get" p) ∧ ∃ f, parse "//get" = .error f ∧ f.kind = .validation := by
  have hspells : Spells "///x//get" ⟨"//x/", "get"⟩ :=
    ⟨by decide, by decide, by decide, by decide⟩
  have hnone : ∀ p, ¬ Spells "//get" p := by
    intro p h
    have hread : parse "//get" = .ok p := ((parse_spells "//get").1 p).mpr h
    have hrefused : parse "//get" = .error (malformed "//get") := by decide
    rw [hrefused] at hread
    cases hread
  exact ⟨hspells, ((parse_spells _).1 _).mpr hspells, hnone, (parse_spells _).2.2.2 hnone⟩

end Switchboard.Grpc.MethodPath
