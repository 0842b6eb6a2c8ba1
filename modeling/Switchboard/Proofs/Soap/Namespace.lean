import Mathlib.Data.List.Infix
import Switchboard.Soap.Namespace
import Switchboard.Proofs.Text.Runs

/-!
# What the address of a service description suggests

The namespace is the address of the description without the name of the file that is asked
for.  It is found by the last slash, whichever that is: in an address with a path it is one of
the path, in one without it is the second slash in front of the host.

## Main definitions

* `DescriptionUrl` — the address of a service description, in its parts.
* `Suggests` — the namespace that an address stands for.

## Main results

* `withoutQuery_text` — what is left of an address when the query is dropped.
* `namespaceOf_of_path`, `namespaceOf_of_no_path` — up to which slash the rest is kept.
* `namespaceOf_iff_path` — **the host is kept if the address has a path, and only then**;
  `not_suggests_bareHost` is an address that loses it.
-/

namespace Switchboard.Soap

/-! ### Addresses -/

/-- How a description is asked for. -/
inductive WsdlQuery where
  /-- The address is that of the description. -/
  | none
  /-- By a query in small letters. -/
  | lower
  /-- By a query in capital letters. -/
  | upper
  deriving DecidableEq, Repr

/-- The query as it stands at the end of an address. -/
def WsdlQuery.text : WsdlQuery → String
  | .none => ""
  | .lower => "?wsdl"
  | .upper => "?WSDL"

/-- None of the marks stands in the text. -/
def Lacks (marks : List Char) (s : String) : Prop := ∀ c ∈ s.toList, c ∉ marks

instance (marks : List Char) (s : String) : Decidable (Lacks marks s) :=
  List.decidableBAll _ s.toList

/-- The address of a service description: a scheme, a host and what belongs to it, and perhaps
a path and a query. -/
structure DescriptionUrl where
  /-- The scheme. -/
  scheme : String
  /-- The host, with a port or a user if there is one. -/
  authority : String
  /-- The path; empty if there is none. -/
  path : String
  /-- The query. -/
  query : WsdlQuery
  /-- The scheme ends where the colon is. -/
  scheme_lacks : Lacks ['/', '?', '#'] scheme
  /-- There is a host. -/
  authority_ne : authority ≠ ""
  /-- The authority ends where the path or the query begins. -/
  authority_lacks : Lacks ['/', '?', '#'] authority
  /-- A path begins with a slash. -/
  path_rooted : path = "" ∨ path.toList.head? = some '/'
  /-- The path ends where the query begins. -/
  path_lacks : Lacks ['?', '#'] path

namespace DescriptionUrl

/-- The scheme and the authority. -/
def origin (u : DescriptionUrl) : String := u.scheme ++ "://" ++ u.authority

/-- The whole address. -/
def text (u : DescriptionUrl) : String := u.origin ++ u.path ++ u.query.text

end DescriptionUrl

variable {u : DescriptionUrl} {ns : String}

/-- The namespace that an address stands for: its scheme and authority, and its path up to and
with the last slash; where there is no path, the slash alone. -/
inductive Suggests (u : DescriptionUrl) : String → Prop where
  /-- There is no path. -/
  | bare (h : u.path = "") : Suggests u (u.origin ++ "/")
  /-- The path goes on behind its last slash with the name of a file, or ends there. -/
  | within {folder file : String} (h : u.path = folder ++ "/" ++ file)
      (hfile : '/' ∉ file.toList) : Suggests u (u.origin ++ folder ++ "/")

/-- Such a namespace begins with the scheme and the authority, and a slash behind them. -/
theorem Suggests.isPrefix (h : Suggests u ns) : (u.origin ++ "/").toList <+: ns.toList := by
  cases h with
  | bare h => exact List.prefix_rfl
  | @within folder file hpath hfile =>
    -- the path begins with a slash, so the part of it that is kept does
    have hroot : (folder ++ "/").toList.head? = some '/' := by
      rcases u.path_rooted with hempty | hroot
      · rw [hempty] at hpath
        simpa using congrArg String.toList hpath
      · rw [hpath] at hroot
        cases hchars : folder.toList <;> simp_all
    obtain ⟨rest, hrest⟩ := List.head?_eq_some_iff.mp hroot
    refine ⟨rest, ?_⟩
    have hall : (u.origin ++ folder ++ "/").toList = u.origin.toList ++ (folder ++ "/").toList := by
      simp
    rw [hall, hrest]
    simp

/-! ### The query -/

theorem dropBack?_append (cs back : List Char) : dropBack? back (cs ++ back) = some cs := by
  simp [dropBack?]

theorem dropBack?_of_not_suffix {cs back : List Char} (h : ¬ back <:+ cs) :
    dropBack? back cs = none := by
  simp [dropBack?, h]

/-- No question mark stands in front of the query. -/
theorem notMem_front (u : DescriptionUrl) : '?' ∉ (u.origin ++ u.path).toList := by
  intro h
  simp only [DescriptionUrl.origin, String.toList_append, List.mem_append] at h
  rcases h with ((h | h) | h) | h
  · exact u.scheme_lacks _ h (by decide)
  · exact absurd h (by decide)
  · exact u.authority_lacks _ h (by decide)
  · exact u.path_lacks _ h (by decide)

/-- Without its query the address ends with its path. -/
theorem withoutQuery_text (u : DescriptionUrl) :
    withoutQuery u.text.toList = (u.origin ++ u.path).toList := by
  have hfree := notMem_front u
  rw [DescriptionUrl.text, String.toList_append, withoutQuery]
  generalize (u.origin ++ u.path).toList = front at hfree
  cases u.query with
  | none =>
    have hnone : ∀ w : List Char, '?' ∈ w → dropBack? w front = none := by
      intro w hw
      exact dropBack?_of_not_suffix fun hsuffix => hfree (hsuffix.mem hw)
    have hback : (WsdlQuery.none.text).toList = [] := by decide
    rw [hback, List.append_nil, hnone _ (by decide), hnone _ (by decide)]
    rfl
  | lower =>
    rw [WsdlQuery.text, dropBack?_append]
    rfl
  | upper =>
    have hother : ¬ "?wsdl".toList <:+ front ++ "?WSDL".toList := by
      intro hsuffix
      have hin := List.suffix_of_suffix_length_le hsuffix (List.suffix_append front _) (by decide)
      exact absurd hin (by decide)
    rw [WsdlQuery.text, dropBack?_of_not_suffix hother, dropBack?_append]
    rfl

/-! ### The last slash -/

/-- What is kept of a text whose last slash is known, and does not come first. -/
theorem namespaceOf_of_mark {url : String} {front back : List Char}
    (hcut : withoutQuery url.toList = front ++ '/' :: back) (hback : '/' ∉ back)
    (hfront : front ≠ []) : (namespaceOf url).toList = front ++ ['/'] := by
  have hkept : throughLastSlash (front ++ '/' :: back) = front ++ ['/'] := by
    rw [throughLastSlash, Text.dropWhile_reverse_mark hback]
    simp
  have hlong : 1 < (front ++ ['/']).length := by
    have hpos := List.length_pos_iff.mpr hfront
    simp only [List.length_append, List.length_singleton]
    omega
  simp only [namespaceOf, hcut, hkept, if_pos hlong, String.toList_ofList]

/-- Of an address with a path, all is kept up to the last slash of the path. -/
theorem namespaceOf_of_path {folder file : String} (hpath : u.path = folder ++ "/" ++ file)
    (hfile : '/' ∉ file.toList) : namespaceOf u.text = u.origin ++ folder ++ "/" := by
  have hcut : withoutQuery u.text.toList
      = (u.origin ++ folder).toList ++ '/' :: file.toList := by
    rw [withoutQuery_text, hpath]
    simp
  have hfront : (u.origin ++ folder).toList ≠ [] := by
    simp [DescriptionUrl.origin]
  apply String.toList_inj.mp
  rw [namespaceOf_of_mark hcut hfile hfront]
  simp

/-- Of an address without a path, the last slash is the second one behind the scheme. -/
theorem namespaceOf_of_no_path (hpath : u.path = "") : namespaceOf u.text = u.scheme ++ "://" := by
  have hcut : withoutQuery u.text.toList
      = (u.scheme ++ ":/").toList ++ '/' :: u.authority.toList := by
    rw [withoutQuery_text, hpath, DescriptionUrl.origin]
    simp
  have hhost : '/' ∉ u.authority.toList := fun h => u.authority_lacks _ h (by decide)
  have hfront : (u.scheme ++ ":/").toList ≠ [] := by simp
  apply String.toList_inj.mp
  rw [namespaceOf_of_mark hcut hhost hfront]
  simp

/-- A path has a last slash. -/
theorem exists_folder (hpath : u.path ≠ "") :
    ∃ folder file : String, u.path = folder ++ "/" ++ file ∧ '/' ∉ file.toList := by
  have hroot : u.path.toList.head? = some '/' := u.path_rooted.resolve_left hpath
  obtain ⟨front, back, hcut, hfree⟩ := Text.exists_lastMark (List.mem_of_mem_head? hroot)
  refine ⟨String.ofList front, String.ofList back, ?_, by simpa using hfree⟩
  apply String.toList_inj.mp
  rw [hcut]
  simp

/-- Where the second slash behind the scheme is the last, what is kept is shorter than the
scheme and the authority. -/
theorem not_isPrefix_scheme (u : DescriptionUrl) :
    ¬ (u.origin ++ "/").toList <+: (u.scheme ++ "://").toList := by
  intro hpre
  have hhost : u.authority.toList.length ≠ 0 := by simpa using u.authority_ne
  have hle := hpre.length_le
  simp only [DescriptionUrl.origin, String.toList_append, List.length_append] at hle
  omega

/-- No address is blank. -/
theorem not_isBlank_text (u : DescriptionUrl) : ¬ Text.IsBlank u.text := by
  intro hblank
  have hslash : '/' ∈ u.text.toList := by
    simp [DescriptionUrl.text, DescriptionUrl.origin]
  exact absurd (hblank _ hslash) (by decide)

/-- **When the host is kept.**  Every address stands for a namespace, and that is what is
guessed from it exactly if it has a path; just then the guess begins with the scheme and the
authority of the address, and a slash behind them.  It ends with a slash in any case.  Of an
address without a path it is the scheme alone, with the colon and the two slashes.  A client
takes whatever is guessed for its operations. -/
theorem namespaceOf_iff_path (u : DescriptionUrl) :
    (∃ ns, Suggests u ns) ∧
      (∀ ns, Suggests u ns → (namespaceOf u.text = ns ↔ u.path ≠ "")) ∧
      ((u.origin ++ "/").toList <+: (namespaceOf u.text).toList ↔ u.path ≠ "") ∧
      (namespaceOf u.text).toList.getLast? = some '/' ∧
      (u.path = "" → namespaceOf u.text = u.scheme ++ "://") ∧
      namespaceFor (some u.text) = namespaceOf u.text := by
  have hfor : namespaceFor (some u.text) = namespaceOf u.text := by
    rw [namespaceFor, if_neg (not_isBlank_text u)]
  by_cases hpath : u.path = ""
  · have hguess := namespaceOf_of_no_path hpath
    have hlost := not_isPrefix_scheme u
    refine ⟨⟨_, .bare hpath⟩, ?_, ?_, ?_, fun _ => hguess, hfor⟩
    · intro ns hns
      rw [hguess]
      refine iff_of_false ?_ (not_not_intro hpath)
      rintro rfl
      exact hlost hns.isPrefix
    · rw [hguess]
      exact iff_of_false hlost (not_not_intro hpath)
    · rw [hguess]
      simp
  · obtain ⟨folder, file, hcut, hfile⟩ := exists_folder hpath
    have hguess := namespaceOf_of_path hcut hfile
    refine ⟨⟨_, .within hcut hfile⟩, ?_, ?_, ?_, fun h => absurd h hpath, hfor⟩
    · intro ns hns
      refine iff_of_true ?_ hpath
      cases hns with
      | bare h => exact absurd h hpath
      | within hcut' hfile' => exact namespaceOf_of_path hcut' hfile'
    · rw [hguess]
      exact iff_of_true (Suggests.within hcut hfile).isPrefix hpath
    · rw [hguess]
      simp

/-- The address of a description in a folder. -/
def tempConvert : DescriptionUrl where
  scheme := "https"
  authority := "www.w3schools.com"
  path := "/xml/tempconvert.asmx"
  query := .upper
  scheme_lacks := by decide
  authority_ne := by decide
  authority_lacks := by decide
  path_rooted := by decide
  path_lacks := by decide

theorem namespaceOf_tempConvert :
    tempConvert.text = "https://www.w3schools.com/xml/tempconvert.asmx?WSDL" ∧
      namespaceOf tempConvert.text = "https://www.w3schools.com/xml/" ∧ tempConvert.path ≠ "" := by
  have hpath : tempConvert.path ≠ "" := by decide
  have hsuggests : Suggests tempConvert "https://www.w3schools.com/xml/" :=
    @Suggests.within tempConvert "/xml" "tempconvert.asmx" (by decide) (by decide)
  exact ⟨by decide, ((namespaceOf_iff_path tempConvert).2.1 _ hsuggests).mpr hpath, hpath⟩

/-- The address of a description that a host has at its root. -/
def bareHost : DescriptionUrl where
  scheme := "http"
  authority := "example.com"
  path := ""
  query := .lower
  scheme_lacks := by decide
  authority_ne := by decide
  authority_lacks := by decide
  path_rooted := by decide
  path_lacks := by decide

/-- The host is lost. -/
theorem not_suggests_bareHost :
    bareHost.text = "http://example.com?wsdl" ∧ Suggests bareHost "http://example.com/" ∧
      namespaceOf bareHost.text = "http://" ∧ ¬ Suggests bareHost (namespaceOf bareHost.text) ∧
      ¬ (bareHost.origin ++ "/").toList <+: (namespaceOf bareHost.text).toList := by
  have hguess : namespaceOf bareHost.text = "http://" := namespaceOf_of_no_path rfl
  have hlost : ¬ (bareHost.origin ++ "/").toList <+: (namespaceOf bareHost.text).toList := by
    rw [hguess]
    exact not_isPrefix_scheme bareHost
  exact ⟨by decide, .bare rfl, hguess, fun h => hlost h.isPrefix, hlost⟩

end Switchboard.Soap
