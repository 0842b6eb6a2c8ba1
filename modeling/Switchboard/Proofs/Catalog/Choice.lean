import Switchboard.Catalog.Loading
import Switchboard.Proofs.Catalog.Validity

/-!
# Which file is loaded, and what comes of it

The path of the catalog is settled before any file is opened, and only what stands at that
path is looked at afterwards.  Whatever is wrong with it is reported; no other file takes its
place.

## Main definitions

* `Unset` — the environment names no catalog.
* `Decides` — the path that is settled on.
* `Holds` — a text is what stands at a path.
* `Outcome` — what comes of the path that was settled on.
* `Alike` — two file systems do not differ at a path.

## Main results

* `decides_iff`, `loadAt_eq_iff` — the two halves of loading.
* `kind_of_parse`, `kind_of_validate` — what is said of a malformed catalog, and of an
  invalid one.
* `load_decided` — **one path decides**: the rule that settles on it, all that can come of it,
  and that nothing else has a part in it.
-/

namespace Switchboard.Catalog

variable {fs fs' : FileSystem} {environment path candidate : Option String} {p : String}
  {f : Failure} {c : Catalog} {r : Except Failure Catalog}

/-! ### The path -/

/-- The environment names no catalog: the variable is not set, or has nothing in it. -/
def Unset (environment : Option String) : Prop := environment = none ∨ environment = some ""

/-- The path that is settled on, if any: the one that is given, or else the one in the
environment, or else the first of the usual ones where a regular file stands. -/
inductive Decides (fs : FileSystem) : Option String → Option String → Option String → Prop where
  /-- A path is given; the environment is not asked. -/
  | given (environment : Option String) (path : String) :
    Decides fs environment (some path) (some path)
  /-- The environment has a path. -/
  | named {path : String} (h : path ≠ "") : Decides fs (some path) none (some path)
  /-- A usual file is there, and none of those before it. -/
  | usual {environment : Option String} {before after : List String} {path : String}
      (hunset : Unset environment) (hpaths : usualPaths = before ++ path :: after)
      (hfile : fs.isFile path = true) (hbefore : ∀ q ∈ before, fs.isFile q = false) :
    Decides fs environment none (some path)
  /-- None of the usual files is there. -/
  | nowhere {environment : Option String} (hunset : Unset environment)
      (hpaths : ∀ q ∈ usualPaths, fs.isFile q = false) : Decides fs environment none none

theorem candidate?_of_unset (h : Unset environment) :
    candidate? fs environment none = probe? fs := by
  rcases h with rfl | rfl
  · rfl
  · simp [candidate?]

/-- The rule settles on one path, and that is the candidate. -/
theorem decides_iff :
    Decides fs environment path candidate ↔ candidate = candidate? fs environment path := by
  constructor
  · intro h
    cases h with
    | given => rfl
    | named h => simp [candidate?, h]
    | usual hunset hpaths hfile hbefore =>
      rw [candidate?_of_unset hunset, probe?, eq_comm, List.find?_eq_some_iff_append]
      exact ⟨hfile, _, _, hpaths, fun q hq => by simp [hbefore q hq]⟩
    | nowhere hunset hpaths =>
      rw [candidate?_of_unset hunset, probe?, eq_comm, List.find?_eq_none]
      exact fun q hq => by simp [hpaths q hq]
  · rintro rfl
    have hprobe : Unset environment → Decides fs environment none (probe? fs) := by
      intro hunset
      cases hfound : probe? fs with
      | none =>
        rw [probe?, List.find?_eq_none] at hfound
        exact .nowhere hunset fun q hq => by simpa using hfound q hq
      | some q =>
        rw [probe?, List.find?_eq_some_iff_append] at hfound
        obtain ⟨hfile, before, after, hpaths, hbefore⟩ := hfound
        exact .usual hunset hpaths hfile fun q hq => by simpa using hbefore q hq
    cases path with
    | some p => exact .given environment p
    | none =>
      cases environment with
      | none => exact hprobe (.inl rfl)
      | some p =>
        by_cases hp : p = ""
        · subst hp
          exact hprobe (.inr rfl)
        · simpa [candidate?, hp] using Decides.named hp

/-! ### The file -/

/-- The text is what stands at the path. -/
def Holds (fs : FileSystem) (p : String) (text : List Char) : Prop :=
  ∃ bytes, fs.read p = .ok bytes ∧ Text.Utf8.decodeChars? bytes = some text

theorem textAt?_eq_some_iff {text : List Char} :
    textAt? fs p = some text ↔ Holds fs p text := by
  rw [textAt?, Holds]
  cases fs.read p with
  | ok bytes => simp
  | error t => simp

/-- What comes of the path that was settled on. -/
inductive Outcome (fs : FileSystem) : Option String → Except Failure Catalog → Prop where
  /-- There was none to settle on. -/
  | nowhere : Outcome fs none (.error notFound)
  /-- Nothing stands there. -/
  | missing {p : String} (h : fs.exists p = false) : Outcome fs (some p) (.error (missing p))
  /-- What stands there cannot be read, or is no text. -/
  | unreadable {p : String} (hthere : fs.exists p = true) (h : ∀ text, ¬ Holds fs p text) :
    Outcome fs (some p) (.error unreadable)
  /-- The text spells no catalog. -/
  | malformed {p : String} {text : List Char} {f : Failure} (hthere : fs.exists p = true)
      (htext : Holds fs p text) (h : parse text p = .error f) : Outcome fs (some p) (.error f)
  /-- The text spells a catalog that is at fault. -/
  | invalid {p : String} {text : List Char} {c : Catalog} {f : Failure}
      (hthere : fs.exists p = true) (htext : Holds fs p text) (hparse : parse text p = .ok c)
      (h : c.validate = .error f) : Outcome fs (some p) (.error f)
  /-- The text spells a catalog in which nothing is wrong. -/
  | valid {p : String} {text : List Char} {c : Catalog} (hthere : fs.exists p = true)
      (htext : Holds fs p text) (hparse : parse text p = .ok c) (h : c.validate = .ok ()) :
    Outcome fs (some p) (.ok c)

/-- The catalog at the path that was settled on. -/
def loadAt (fs : FileSystem) : Option String → Except Failure Catalog
  | none => .error notFound
  | some p => do checked (← loadFrom fs p)

theorem load_eq (fs : FileSystem) (environment path : Option String) :
    load fs environment path = loadAt fs (candidate? fs environment path) := by
  rw [load]
  cases candidate? fs environment path <;> rfl

theorem loadFrom_of_holds {text : List Char} (hthere : fs.exists p = true)
    (htext : Holds fs p text) : loadFrom fs p = parse text p := by
  rw [loadFrom, if_pos hthere, textAt?_eq_some_iff.mpr htext]

theorem loadAt_of_parse {text : List Char} (hthere : fs.exists p = true)
    (htext : Holds fs p text) (hparse : parse text p = .ok c) :
    loadAt fs (some p) = checked c := by
  rw [loadAt, loadFrom_of_holds hthere htext, hparse]
  rfl

theorem loadAt_of_outcome (h : Outcome fs candidate r) : loadAt fs candidate = r := by
  cases h with
  | nowhere => rfl
  | missing h =>
    rw [loadAt, loadFrom, if_neg (by simp [h])]
    rfl
  | @unreadable p hthere h =>
    have hnone : textAt? fs p = none := by
      rw [Option.eq_none_iff_forall_ne_some]
      intro text htext
      exact h text (textAt?_eq_some_iff.mp htext)
    rw [loadAt, loadFrom, if_pos hthere, hnone]
    rfl
  | malformed hthere htext h =>
    rw [loadAt, loadFrom_of_holds hthere htext, h]
    rfl
  | invalid hthere htext hparse h => rw [loadAt_of_parse hthere htext hparse, checked, h]
  | valid hthere htext hparse h => rw [loadAt_of_parse hthere htext hparse, checked, h]

/-- Something comes of every path. -/
theorem exists_outcome (fs : FileSystem) (candidate : Option String) :
    ∃ r, Outcome fs candidate r := by
  cases candidate with
  | none => exact ⟨_, .nowhere⟩
  | some p =>
    cases hthere : fs.exists p with
    | false => exact ⟨_, .missing hthere⟩
    | true =>
      by_cases htext : ∃ text, Holds fs p text
      · obtain ⟨text, htext⟩ := htext
        cases hparse : parse text p with
        | error f => exact ⟨_, .malformed hthere htext hparse⟩
        | ok c =>
          cases hvalid : c.validate with
          | error f => exact ⟨_, .invalid hthere htext hparse hvalid⟩
          | ok _ => exact ⟨_, .valid hthere htext hparse hvalid⟩
      · exact ⟨_, .unreadable hthere fun text h => htext ⟨text, h⟩⟩

theorem loadAt_eq_iff : loadAt fs candidate = r ↔ Outcome fs candidate r := by
  constructor
  · intro h
    obtain ⟨r', hr'⟩ := exists_outcome fs candidate
    rw [loadAt_of_outcome hr'] at h
    exact h ▸ hr'
  · exact loadAt_of_outcome

/-! ### What is said of a catalog that cannot be used -/

/-- That a name says of no format is a matter of the configuration. -/
theorem kind_of_formatOf (h : formatOf p = .error f) : f.kind = .config := by
  rw [formatOf] at h
  split at h
  · cases h
  · cases h
    rfl

/-- So is that a text spells no catalog. -/
theorem kind_of_parse {text : List Char} (h : parse text p = .error f) : f.kind = .config := by
  rw [parse] at h
  cases hformat : formatOf p with
  | error f' =>
    rw [hformat] at h
    cases h
    exact kind_of_formatOf hformat
  | ok format =>
    rw [hformat] at h
    change format.parse text = _ at h
    rw [Format.parse] at h
    split at h
    · cases h
    · cases h
      rfl

/-- That a catalog is at fault is a matter of its endpoints. -/
theorem kind_of_validate (h : c.validate = .error f) : f.kind = .validation := by
  obtain ⟨i, ⟨e, -, hfault⟩, -⟩ :=
    (validateFrom_eq_error_iff c.endpoints [] [] (remembers_names []) f).mp h
  cases hfault with
  | blankName => rfl
  | blankUrl => rfl
  | repeated => rfl

/-- A catalog that is returned has passed its check. -/
theorem Outcome.validate (h : Outcome fs candidate (.ok c)) : c.validate = .ok () := by
  cases h with
  | valid _ _ _ h => exact h

/-- A failure is about the configuration, or else about a catalog that was read. -/
theorem Outcome.kind (h : Outcome fs candidate (.error f)) :
    f.kind = .config ∨ f.kind = .validation ∧ ∃ p text c, candidate = some p ∧
      Holds fs p text ∧ parse text p = .ok c ∧ c.validate = .error f := by
  cases h with
  | nowhere => exact .inl rfl
  | missing => exact .inl rfl
  | unreadable => exact .inl rfl
  | malformed _ _ h => exact .inl (kind_of_parse h)
  | invalid _ htext hparse h =>
    exact .inr ⟨kind_of_validate h, _, _, _, rfl, htext, hparse, h⟩

/-! ### Other files -/

/-- The two file systems do not differ at the path. -/
structure Alike (fs fs' : FileSystem) (p : String) : Prop where
  /-- Something stands there in both, or in neither. -/
  there : fs.exists p = fs'.exists p
  /-- It has the same content, or cannot be read for the same reason. -/
  read : fs.read p = fs'.read p

theorem loadAt_congr (h : ∀ p ∈ candidate, Alike fs fs' p) :
    loadAt fs candidate = loadAt fs' candidate := by
  cases candidate with
  | none => rfl
  | some p =>
    obtain ⟨hthere, hread⟩ := h p rfl
    have htext : textAt? fs p = textAt? fs' p := by rw [textAt?, textAt?, hread]
    rw [loadAt, loadAt, loadFrom, loadFrom, hthere, htext]

/-- The path depends on which of the usual files are there, and that only if neither the
caller nor the environment has one. -/
theorem Decides.congr (h : Decides fs environment path candidate)
    (husual : path = none → Unset environment → ∀ q ∈ usualPaths, fs.isFile q = fs'.isFile q) :
    Decides fs' environment path candidate := by
  cases h with
  | given => exact .given _ _
  | named h => exact .named h
  | usual hunset hpaths hfile hbefore =>
    have hsame := husual rfl hunset
    refine .usual hunset hpaths ?_ ?_
    · rw [← hsame _ (by simp [hpaths])]
      exact hfile
    · intro q hq
      rw [← hsame q (by simp [hpaths, hq])]
      exact hbefore q hq
  | nowhere hunset hpaths =>
    refine .nowhere hunset ?_
    intro q hq
    rw [← husual rfl hunset q hq]
    exact hpaths q hq

/-- **One path decides.**  There is one path, or none, that the rule settles on.  What comes of
loading is what comes of that path, whatever that is, and is the same in every other file
system that does not differ from this one there, nor, if the usual paths were looked at, in
which of them are regular files.  A failure is one of the configuration, or, only if a catalog
was read, one of its endpoints; and a catalog that is returned passes its check. -/
theorem load_decided (fs : FileSystem) (environment path : Option String) :
    ∃ candidate, (∀ candidate', Decides fs environment path candidate' ↔ candidate' = candidate) ∧
      (∀ r, load fs environment path = r ↔ Outcome fs candidate r) ∧
      (∀ fs' : FileSystem, (∀ p ∈ candidate, Alike fs fs' p) →
        (path = none → Unset environment → ∀ q ∈ usualPaths, fs.isFile q = fs'.isFile q) →
          load fs' environment path = load fs environment path) ∧
      (∀ f, load fs environment path = .error f → f.kind = .config ∨
        f.kind = .validation ∧ ∃ p text c, candidate = some p ∧ Holds fs p text ∧
          parse text p = .ok c ∧ c.validate = .error f) ∧
      ∀ c, load fs environment path = .ok c → c.validate = .ok () := by
  refine ⟨candidate? fs environment path, fun _ => decides_iff, ?_, ?_, ?_, ?_⟩
  · intro r
    rw [load_eq, loadAt_eq_iff]
  · intro fs' halike husual
    have hdecides : Decides fs' environment path (candidate? fs environment path) :=
      (decides_iff.mpr rfl).congr husual
    rw [load_eq, load_eq, ← decides_iff.mp hdecides, loadAt_congr halike]
  · intro f h
    rw [load_eq, loadAt_eq_iff] at h
    exact h.kind
  · intro c h
    rw [load_eq, loadAt_eq_iff] at h
    exact h.validate

/-- A directory with a catalog that the process may not read, and behind it one that it may. -/
def locked (second : String) : FileSystem where
  kind? p := if p = "polycall.toml" ∨ p = "polycall.json" then some .file else none
  read p :=
    if p = "polycall.toml" then .error (.other "Permission denied (os error 13)")
    else if p = "polycall.json" then .ok (Text.Utf8.encode second)
    else .error .missing

/-- The second catalog would do, but it is not loaded, and another in its place changes nothing. -/
theorem load_locked :
    Decides (locked "\x7b\x7d") (some "") none (some "polycall.toml") ∧
      load (locked "\x7b\x7d") (some "") none = .error unreadable ∧
      load (locked "[]") (some "") none = load (locked "\x7b\x7d") (some "") none ∧
      load (locked "\x7b\x7d") (some "polycall.json") none = .ok .empty := by
  have hdecides : Decides (locked "\x7b\x7d") (some "") none (some "polycall.toml") :=
    @Decides.usual _ _ [] _ _ (.inr rfl) rfl rfl (by simp)
  have hunreadable : Outcome (locked "\x7b\x7d") (some "polycall.toml") (.error unreadable) := by
    refine .unreadable rfl ?_
    rintro text ⟨bytes, hread, -⟩
    cases hread
  obtain ⟨candidate, hone, hload, hsame, -, -⟩ :=
    load_decided (locked "\x7b\x7d") (some "") none
  obtain rfl : some "polycall.toml" = candidate := (hone _).mp hdecides
  refine ⟨hdecides, (hload _).mpr hunreadable, hsame (locked "[]") ?_ fun _ _ _ _ => rfl, ?_⟩
  · rintro p ⟨⟩
    exact ⟨rfl, rfl⟩
  · decide +kernel

end Switchboard.Catalog
