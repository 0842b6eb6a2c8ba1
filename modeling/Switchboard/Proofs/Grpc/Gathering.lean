import Mathlib.Data.List.Nodup
import Mathlib.Logic.Function.Iterate
import Switchboard.Grpc.Reflection
import Switchboard.Proofs.Dictionary
import Switchboard.Proofs.Proto.Wire
import Switchboard.Proofs.Text.Utf8

/-!
# Gathering the files around a service

A server that tells the same whenever it is asked is a function from queries to answers.
The files around a service are gathered from it round by round.  A round asks for all that
the files at hand depend on, are not, and have not been asked for; so a name is asked for
once, and what is `k` dependencies away from the first answer comes with round `k`.

An answer may hold other files than the one that was asked for, and several of one name.
The first file of a name that comes is kept; its dependencies are those that are followed,
and what only another file of that name depends on is not gathered.

## Main definitions

* `recorded serve` — asking such a server, with a record of what is asked.
* `Gathered`, `Gathered.next`, `after` — what is at hand after a round, after any number.
* `Chain` — a file some dependencies away from the first answer.
* `Gathering` — what gathering comes to.

## Main results

* `rounds_recorded` — the rounds on the record are those of `after`.
* `Consistent.next` — what a round preserves.
* `contains_of_chain` — **a file `k` dependencies away is there after `k` rounds.**
* `gather_gathers` — **what is asked, and what is gathered.**
* `gather_twoOfOneName` — a file that is left out, since another of that name was kept.
-/

namespace Switchboard.Grpc

open Proto

/-! ### A server -/

/-- Asking a server, with a record of what is asked. -/
def recorded (serve : Query → Except Failure (List Bytes)) (q : Query) :
    StateM (List Query) (Except Failure (List Bytes)) := fun asked => (serve q, asked ++ [q])

/-- The files in a list of encoded ones. -/
def decoded (encoded : List Bytes) : List FileDecl := encoded.filterMap FileDecl.decode?

/-- All that a server answers can be read. -/
def Readable (serve : Query → Except Failure (List Bytes)) : Prop :=
  ∀ q encoded, serve q = .ok encoded → ∀ bs ∈ encoded, (FileDecl.decode? bs).isSome = true

/-- The files that a server answers with when it is asked for a file. -/
def served (serve : Query → Except Failure (List Bytes)) (name : String) : List FileDecl :=
  match serve (.file name) with
  | .ok encoded => decoded encoded
  | .error _ => []

/-! ### Keeping files -/

theorem get?_keep (n : String) (files : Dictionary FileDecl) (f : FileDecl) :
    Dictionary.get? n (keep files f)
      = (Dictionary.get? n files).or (if f.name = n then some f else none) := by
  rw [keep]
  split
  · next hthere =>
    split
    · next hn =>
      rw [hn, Dictionary.contains] at hthere
      rw [Option.or_of_isSome hthere]
    · rw [Option.or_none]
  · next hnew =>
    rw [Dictionary.get?_insert]
    split
    · next hn =>
      rw [← hn, Dictionary.contains, Option.not_isSome_iff_eq_none] at hnew
      rw [hnew, Option.none_or, if_pos hn.symm]
    · next hn => rw [if_neg (Ne.symm hn), Option.or_none]

/-- A file that was there stays; of those that come the first of a name is kept. -/
theorem get?_foldl_keep (n : String) (files : Dictionary FileDecl) (come : List FileDecl) :
    Dictionary.get? n (come.foldl keep files)
      = (Dictionary.get? n files).or (come.find? (·.name = n)) := by
  induction come generalizing files with
  | nil => rw [List.foldl_nil, List.find?_nil, Option.or_none]
  | cons f come ih =>
    rw [List.foldl_cons, ih, get?_keep, Option.or_assoc, List.find?_cons]
    by_cases hname : f.name = n <;> simp [hname]

/-- Files that can be read are collected. -/
theorem collect_eq {encoded : List Bytes}
    (h : ∀ bs ∈ encoded, (FileDecl.decode? bs).isSome = true) (files : Dictionary FileDecl) :
    collect files encoded = .ok ((decoded encoded).foldl keep files) := by
  induction encoded generalizing files with
  | nil => rfl
  | cons bs encoded ih =>
    obtain ⟨hbs, hrest⟩ := List.forall_mem_cons.mp h
    obtain ⟨f, hf⟩ := Option.isSome_iff_exists.mp hbs
    rw [decoded, List.filterMap_cons_some hf, List.foldl_cons]
    have hstep : collect files (bs :: encoded) = collect (keep files f) encoded := by
      rw [collect, List.foldlM_cons, hf]
      rfl
    rw [hstep]
    exact ih hrest (keep files f)

/-! ### Rounds -/

/-- The files at hand, and the names that have been asked for. -/
structure Gathered where
  /-- The files by their names. -/
  files : Dictionary FileDecl
  /-- The names, in the order in which they were asked for. -/
  requested : List String

namespace Gathered

/-- The names that the next round asks for. -/
def wanted (g : Gathered) : List String := Grpc.wanted g.files g.requested

/-- What is at hand after one more round. -/
def next (serve : Query → Except Failure (List Bytes)) (g : Gathered) : Gathered :=
  ⟨(g.wanted.flatMap (served serve)).foldl keep g.files, g.requested ++ g.wanted⟩

end Gathered

/-- What is at hand after the given number of rounds. -/
def after (serve : Query → Except Failure (List Bytes)) (g : Gathered) (count : ℕ) : Gathered :=
  (Gathered.next serve)^[count] g

section

variable {serve : Query → Except Failure (List Bytes)} {g : Gathered}

theorem after_succ (count : ℕ) : after serve g (count + 1) = (after serve g count).next serve :=
  Function.iterate_succ_apply' _ _ _

/-- When nothing is wanted, a round changes nothing. -/
theorem next_of_wanted (h : g.wanted = []) : g.next serve = g := by
  rw [Gathered.next, h, List.flatMap_nil, List.foldl_nil, List.append_nil]

/-- What follows a conversation that succeeds. -/
theorem run_bind_of_ok {α β : Type} {m : ExceptT Failure (StateM (List Query)) α}
    {f : α → ExceptT Failure (StateM (List Query)) β} {asked asked' : List Query} {a : α}
    (h : m.run asked = (.ok a, asked')) : (m >>= f).run asked = (f a).run asked' := by
  show StateT.bind m.run (ExceptT.bindCont f) asked = _
  rw [StateT.bind, h]
  rfl

theorem fetch_recorded (hserve : Readable serve) (files : Dictionary FileDecl) (name : String)
    (asked : List Query) :
    (fetch (recorded serve) files name).run asked
      = (.ok ((served serve name).foldl keep files), asked ++ [.file name]) := by
  simp only [fetch, recorded, ExceptT.run, ExceptT.mk, bind, StateT.bind, served]
  cases hfile : serve (.file name) with
  | ok encoded => exact congrArg (·, asked ++ [.file name]) (collect_eq (hserve _ _ hfile) files)
  | error _ => rfl

theorem fetchAll_recorded (hserve : Readable serve) (files : Dictionary FileDecl)
    (names : List String) (asked : List Query) :
    (names.foldlM (fetch (recorded serve)) files).run asked
      = (.ok ((names.flatMap (served serve)).foldl keep files), asked ++ names.map .file) := by
  induction names generalizing files asked with
  | nil => rw [List.map_nil, List.append_nil]; rfl
  | cons name names ih =>
    rw [List.foldlM_cons, run_bind_of_ok (fetch_recorded hserve files name asked), ih,
      List.flatMap_cons, List.foldl_append, List.map_cons, List.append_assoc, List.singleton_append]

/-- The rounds on the record are those of `after`. -/
theorem rounds_recorded (hserve : Readable serve) (count : ℕ) (g : Gathered)
    (asked : List Query) :
    ∃ names, (after serve g count).requested = g.requested ++ names ∧
      (rounds (recorded serve) count g.files g.requested).run asked
        = (.ok (after serve g count).files, asked ++ names.map .file) := by
  induction count generalizing g asked with
  | zero => exact ⟨[], (List.append_nil _).symm, by rw [List.map_nil, List.append_nil]; rfl⟩
  | succ count ih =>
    rw [rounds]
    split
    · next hnone =>
      -- nothing is wanted now, so nothing would be wanted in the rounds that are left
      have hsame : after serve g (count + 1) = g := Function.iterate_fixed (next_of_wanted hnone) _
      rw [hsame]
      exact ⟨[], (List.append_nil _).symm, by rw [List.map_nil, List.append_nil]; rfl⟩
    · have hnext : after serve g (count + 1) = after serve (g.next serve) count := rfl
      obtain ⟨names, hrequested, hrun⟩ := ih (g.next serve) (asked ++ g.wanted.map .file)
      refine ⟨g.wanted ++ names, ?_, ?_⟩
      · rw [hnext, hrequested, Gathered.next, List.append_assoc]
      · rw [run_bind_of_ok (fetchAll_recorded hserve g.files _ asked), List.map_append,
          ← List.append_assoc]
        exact hrun

/-! ### What a round asks for -/

theorem mem_missing {files : Dictionary FileDecl} {n : String} :
    n ∈ FileDecl.missing files ↔
      (∃ e ∈ files, n ∈ e.2.dependencies) ∧ Dictionary.contains n files = false := by
  rw [FileDecl.missing, Dictionary.keys, ← Dictionary.contains_iff, Dictionary.contains_ofList]
  simp [and_comm]

theorem mem_wanted {n : String} :
    n ∈ g.wanted ↔ (∃ e ∈ g.files, n ∈ e.2.dependencies) ∧
      Dictionary.contains n g.files = false ∧ n ∉ g.requested := by
  rw [Gathered.wanted, wanted, List.mem_filter, mem_missing, decide_eq_true_iff, and_assoc]

theorem nodup_wanted : g.wanted.Nodup :=
  (Dictionary.ordered_ofList _).nodup_keys.filter _

/-- Every dependency of the files at hand is there or has been asked for. -/
def Gathered.Closed (g : Gathered) : Prop :=
  ∀ e ∈ g.files, ∀ d ∈ e.2.dependencies,
    Dictionary.contains d g.files = true ∨ d ∈ g.requested

theorem closed_iff : g.Closed ↔ g.wanted = [] := by
  rw [List.eq_nil_iff_forall_not_mem]
  constructor
  · intro h n hn
    obtain ⟨⟨e, he, hdep⟩, hnew, hask⟩ := mem_wanted.mp hn
    rcases h e he n hdep with hthere | hasked
    · rw [hthere] at hnew
      cases hnew
    · exact hask hasked
  · intro h e he d hd
    by_cases hthere : Dictionary.contains d g.files = true
    · exact .inl hthere
    · by_cases hasked : d ∈ g.requested
      · exact .inr hasked
      · exact absurd (mem_wanted.mpr ⟨⟨e, he, hd⟩, Bool.eq_false_iff.mpr hthere, hasked⟩) (h d)

/-- After any number of rounds nothing is left to ask for, or each of them asked. -/
theorem closed_or_wanted (count : ℕ) :
    (after serve g count).Closed ∨ ∀ i < count, (after serve g i).wanted ≠ [] := by
  by_cases h : ∃ i < count, (after serve g i).wanted = []
  · obtain ⟨i, hi, hnone⟩ := h
    have hsame : after serve g count = after serve g i := by
      rw [← Nat.sub_add_cancel hi.le, after, Function.iterate_add_apply]
      exact Function.iterate_fixed (next_of_wanted hnone) _
    exact .inl (closed_iff.mpr (hsame ▸ hnone))
  · exact .inr fun i hi hnone => h ⟨i, hi, hnone⟩

/-! ### What is at hand -/

/-- No name has been asked for twice, and of the files that have come the first of a name
is at hand. -/
structure Consistent (serve : Query → Except Failure (List Bytes)) (initial : List FileDecl)
    (g : Gathered) : Prop where
  /-- A name is asked for once. -/
  nodup : g.requested.Nodup
  /-- The first file of a name is kept. -/
  first : ∀ n, Dictionary.get? n g.files
    = (initial ++ g.requested.flatMap (served serve)).find? (·.name = n)

/-- What is at hand after the first answer. -/
def started (initial : List FileDecl) : Gathered := ⟨initial.foldl keep [], []⟩

variable {initial : List FileDecl}

theorem consistent_started : Consistent serve initial (started initial) where
  nodup := List.nodup_nil
  first := fun n => by
    rw [started, get?_foldl_keep, Dictionary.get?_nil, Option.none_or, List.flatMap_nil,
      List.append_nil]

/-- **One round.** -/
theorem Consistent.next (h : Consistent serve initial g) :
    Consistent serve initial (g.next serve) where
  nodup := List.nodup_append'.mpr
    ⟨h.nodup, nodup_wanted, fun _ hasked hwanted => (mem_wanted.mp hwanted).2.2 hasked⟩
  first := fun n => by
    rw [Gathered.next, get?_foldl_keep, h.first, ← List.find?_append, List.flatMap_append,
      List.append_assoc]

/-- **Any number of rounds.** -/
theorem consistent_after (count : ℕ) :
    Consistent serve initial (after serve (started initial) count) := by
  induction count with
  | zero => exact consistent_started
  | succ count ih => rw [after_succ]; exact ih.next

/-- A file that is at hand stays. -/
theorem get?_after {n : String} {f : FileDecl} {i : ℕ}
    (h : Dictionary.get? n (after serve g i).files = some f) {j : ℕ} (hij : i ≤ j) :
    Dictionary.get? n (after serve g j).files = some f := by
  induction hij with
  | refl => exact h
  | step _ ih => rw [after_succ, Gathered.next, get?_foldl_keep, ih, Option.some_or]

/-- The server has the file with the given name, if it is asked for it. -/
def Serves (serve : Query → Except Failure (List Bytes)) (name : String) : Prop :=
  ∃ f ∈ served serve name, f.name = name

/-- What is asked for and served is at hand. -/
theorem Consistent.contains (h : Consistent serve initial g) {n : String}
    (hasked : n ∈ g.requested) (hserves : Serves serve n) :
    Dictionary.contains n g.files = true := by
  obtain ⟨f, hf, hname⟩ := hserves
  rw [Dictionary.contains, h.first, List.find?_isSome]
  have hcame : f ∈ g.requested.flatMap (served serve) := List.mem_flatMap.mpr ⟨n, hasked, hf⟩
  exact ⟨f, List.mem_append_right _ hcame, decide_eq_true hname⟩

/-- A file with the given name is the given number of dependencies away from the first
answer, and the server has all on the way.  The dependencies of a file are those that the
file kept of its name has. -/
inductive Chain (serve : Query → Except Failure (List Bytes)) (initial : List FileDecl)
    (files : Dictionary FileDecl) : ℕ → String → Prop
  /-- A file of the first answer. -/
  | initial {f : FileDecl} : f ∈ initial → Chain serve initial files 0 f.name
  /-- A dependency of such a file. -/
  | dependency {k : ℕ} {n d : String} {f : FileDecl} : Chain serve initial files k n →
    Dictionary.get? n files = some f → d ∈ f.dependencies → Serves serve d →
    Chain serve initial files (k + 1) d

/-- **A file that is `k` dependencies away is there after `k` rounds**: those of the files
that came with a round are asked for in the next, unless they are there or were asked for
before, and then they are there if the server has them. -/
theorem contains_of_chain {count k : ℕ} {n : String}
    (h : Chain serve initial (after serve (started initial) count).files k n) {i : ℕ}
    (hki : k ≤ i) (hi : i ≤ count) :
    Dictionary.contains n (after serve (started initial) i).files = true := by
  induction h generalizing i with
  | @initial f hf =>
    rw [Dictionary.contains, (consistent_after i).first, List.find?_isSome]
    exact ⟨f, List.mem_append_left _ hf, decide_eq_true rfl⟩
  | @dependency k n d f _ hfile hd hserves ih =>
    obtain ⟨j, rfl⟩ : ∃ j, i = j + 1 := ⟨i - 1, by omega⟩
    -- the file that it is a dependency of is the same after `j` rounds as at the end
    have hthere := ih (by omega : k ≤ j) (by omega)
    rw [Dictionary.contains] at hthere
    obtain ⟨f', hf'⟩ := Option.isSome_iff_exists.mp hthere
    have hsame := get?_after hf' (show j ≤ count by omega)
    rw [hfile] at hsame
    cases hsame
    by_cases hnew : Dictionary.contains d (after serve (started initial) j).files = true
    · rw [Dictionary.contains] at hnew ⊢
      obtain ⟨f', hd'⟩ := Option.isSome_iff_exists.mp hnew
      rw [get?_after hd' (Nat.le_succ j)]
      rfl
    · have hasked : d ∈ (after serve (started initial) (j + 1)).requested := by
        rw [after_succ, Gathered.next, List.mem_append]
        by_cases hasked : d ∈ (after serve (started initial) j).requested
        · exact .inl hasked
        · exact .inr (mem_wanted.mpr
            ⟨⟨_, Dictionary.mem_of_get? hf', hd⟩, Bool.eq_false_iff.mpr hnew, hasked⟩)
      exact (consistent_after (j + 1)).contains hasked hserves

/-- A file is the given number of dependencies away from the first answer, each served
under its own name. -/
inductive Reaches (serve : Query → Except Failure (List Bytes)) (initial : List FileDecl) :
    ℕ → FileDecl → Prop
  /-- A file of the first answer. -/
  | initial {f : FileDecl} : f ∈ initial → Reaches serve initial 0 f
  /-- A dependency of such a file. -/
  | dependency {k : ℕ} {f g : FileDecl} : Reaches serve initial k f → g.name ∈ f.dependencies →
    g ∈ served serve g.name → Reaches serve initial (k + 1) g

/-- A file comes with the first answer or is served under some name. -/
def Comes (serve : Query → Except Failure (List Bytes)) (initial : List FileDecl)
    (f : FileDecl) : Prop :=
  f ∈ initial ∨ ∃ n, f ∈ served serve n

/-- No two files that come have one name. -/
def Unambiguous (serve : Query → Except Failure (List Bytes)) (initial : List FileDecl) : Prop :=
  ∀ f g, Comes serve initial f → Comes serve initial g → f.name = g.name → f = g

theorem Reaches.comes {k : ℕ} {f : FileDecl} (h : Reaches serve initial k f) :
    Comes serve initial f := by
  cases h with
  | initial hf => exact .inl hf
  | dependency _ _ hg => exact .inr ⟨_, hg⟩

/-- What is at hand has come. -/
theorem Consistent.comes (h : Consistent serve initial g) {n : String} {f : FileDecl}
    (hf : Dictionary.get? n g.files = some f) : Comes serve initial f ∧ f.name = n := by
  rw [h.first] at hf
  refine ⟨?_, by simpa using List.find?_some hf⟩
  rcases List.mem_append.mp (List.mem_of_find?_eq_some hf) with hmem | hmem
  · exact .inl hmem
  · obtain ⟨name, -, hserved⟩ := List.mem_flatMap.mp hmem
    exact .inr ⟨name, hserved⟩

/-- A file that is at hand under its name is the only one that has it. -/
theorem get?_of_unambiguous (hone : Unambiguous serve initial) (h : Consistent serve initial g)
    {f : FileDecl} (hf : Comes serve initial f)
    (hthere : Dictionary.contains f.name g.files = true) :
    Dictionary.get? f.name g.files = some f := by
  rw [Dictionary.contains] at hthere
  obtain ⟨f', hf'⟩ := Option.isSome_iff_exists.mp hthere
  obtain ⟨hcomes, hname⟩ := h.comes hf'
  rw [hf', hone f' f hcomes hf hname]

/-- Where names are unambiguous, what is reached is what the chains lead to. -/
theorem get?_of_reaches (hone : Unambiguous serve initial) {count k : ℕ} {f : FileDecl}
    (h : Reaches serve initial k f) (hk : k ≤ count) :
    Dictionary.get? f.name (after serve (started initial) count).files = some f := by
  have hchain : Chain serve initial (after serve (started initial) count).files k f.name := by
    induction h with
    | initial hf => exact .initial hf
    | @dependency k f g hf hdep hg ih =>
      have hchain := ih (by omega)
      have hthere := contains_of_chain hchain (by omega : k ≤ count) (Nat.le_refl _)
      have hfile := get?_of_unambiguous hone (consistent_after count) hf.comes hthere
      exact .dependency hchain hfile hdep ⟨g, hg, rfl⟩
  exact get?_of_unambiguous hone (consistent_after count) h.comes
    (contains_of_chain hchain hk (Nat.le_refl _))

/-! ### Gathering -/

/-- What gathering comes to, where `state i` is what is at hand after `i` rounds. -/
structure Gathering (serve : Query → Except Failure (List Bytes)) (initial : List FileDecl)
    (state : ℕ → Gathered) : Prop where
  /-- No name is asked for twice. -/
  once : (state maxRounds).requested.Nodup
  /-- In the end every dependency is there or has been asked for, or every round asked for
  something. -/
  closed : (state maxRounds).Closed ∨ ∀ i < maxRounds, (state i).wanted ≠ []
  /-- What is no more than that many dependencies away is there, where those of a name are the
  dependencies of the file that was kept of it. -/
  reached : ∀ k ≤ maxRounds, ∀ n, Chain serve initial (state maxRounds).files k n →
    Dictionary.contains n (state maxRounds).files = true
  /-- Where no two files have one name, these are the files that the server has.  Of two files
  with one name only the first is kept, and the dependencies of the other are not followed. -/
  whole : Unambiguous serve initial → ∀ k ≤ maxRounds, ∀ f, Reaches serve initial k f →
    Dictionary.get? f.name (state maxRounds).files = some f
  /-- The first file of a name that comes is the one that is kept. -/
  first : ∀ n, Dictionary.get? n (state maxRounds).files
    = (initial ++ (state maxRounds).requested.flatMap (served serve)).find? (·.name = n)

/-- What is asked and gathered of any server that can be read. -/
theorem gather_recorded (hserve : Readable serve) {service : String} {encoded : List Bytes}
    (hfirst : serve (.symbol service) = .ok encoded) :
    (gather (recorded serve) service).run []
      = (.ok (after serve (started (decoded encoded)) maxRounds).files,
        .symbol service
          :: (after serve (started (decoded encoded)) maxRounds).requested.map .file) := by
  obtain ⟨names, hrequested, hrun⟩ :=
    rounds_recorded hserve maxRounds (started (decoded encoded)) [.symbol service]
  have hanswer : (ExceptT.mk (recorded serve (.symbol service))).run []
      = (.ok encoded, [.symbol service]) := by
    rw [← hfirst]
    rfl
  have hcollect : (liftExcept (collect [] encoded)
      : ExceptT Failure (StateM (List Query)) (Dictionary FileDecl)).run [.symbol service]
        = (.ok ((decoded encoded).foldl keep []), [.symbol service]) := by
    rw [collect_eq (hserve _ _ hfirst)]
    rfl
  rw [gather, run_bind_of_ok hanswer, run_bind_of_ok hcollect, hrequested]
  exact hrun

theorem gathering_after (initial : List FileDecl) :
    Gathering serve initial (after serve (started initial)) where
  once := (consistent_after maxRounds).nodup
  closed := closed_or_wanted maxRounds
  reached := fun _ hk _ h => contains_of_chain h hk (Nat.le_refl _)
  whole := fun hone _ hk _ h => get?_of_reaches hone h hk
  first := (consistent_after maxRounds).first

/-- **The files around a service**, gathered from any server that can be read and tells the
same whenever it is asked.  After the service itself, exactly the names on the record are
asked for, and the files of the last round are what comes of it. -/
theorem gather_gathers (hserve : Readable serve) {service : String} {encoded : List Bytes}
    (hfirst : serve (.symbol service) = .ok encoded) :
    (gather (recorded serve) service).run []
        = (.ok (after serve (started (decoded encoded)) maxRounds).files,
          .symbol service
            :: (after serve (started (decoded encoded)) maxRounds).requested.map .file) ∧
      Gathering serve (decoded encoded) (after serve (started (decoded encoded))) :=
  ⟨gather_recorded hserve hfirst, gathering_after (decoded encoded)⟩

end

/-! ### Small servers -/

/-- The records of a file of which there are only the name and the dependencies. -/
def headerRecords (name : String) (dependencies : List String) : Wire.Records :=
  (1, .bytes (Text.Utf8.encode name))
    :: dependencies.map fun d => (3, .bytes (Text.Utf8.encode d))

/-- Such a file as it is sent. -/
def header (name : String) (dependencies : List String) : Bytes :=
  Wire.writeRecords (headerRecords name dependencies)

theorem mem_headerRecords {name : String} {dependencies : List String} {r : ℕ × Wire.Payload}
    (h : r ∈ headerRecords name dependencies) :
    (r.1 = 1 ∨ r.1 = 3) ∧ ∃ bs, r.2 = .bytes bs := by
  rcases List.mem_cons.mp h with rfl | hdependency
  · exact ⟨.inl rfl, _, rfl⟩
  · obtain ⟨d, -, rfl⟩ := List.mem_map.mp hdependency
    exact ⟨.inr rfl, _, rfl⟩

theorem text?_encode (s : String) : Reading.text? (.bytes (Text.Utf8.encode s)) = some s := by
  rw [Reading.text?, Text.Utf8.decode?, Text.Utf8.encode, Text.Utf8.decodeChars?_encodeChars,
    Option.map_some, String.ofList_toList]

section

variable {name : String} {dependencies : List String} {α : Type} {read : Wire.Payload → Option α}
  {n : ℕ}

theorem all?_header_dependencies :
    Reading.all? 3 Reading.text? (headerRecords name dependencies) = some dependencies := by
  have hfilter : (headerRecords name dependencies).filter (·.1 = 3)
      = dependencies.map fun d => (3, .bytes (Text.Utf8.encode d)) := by
    simp [headerRecords]
  rw [Reading.all?, hfilter]
  clear hfilter
  induction dependencies with
  | nil => rfl
  | cons d ds ih =>
    rw [List.map_cons, List.mapM_cons, ih, text?_encode]
    rfl

theorem last?_header_name :
    Reading.last? 1 Reading.text? (headerRecords name dependencies) = some (some name) := by
  have hfilter : (headerRecords name dependencies).filter (·.1 = 1)
      = [(1, .bytes (Text.Utf8.encode name))] := by
    simp [headerRecords]
  rw [Reading.last?, hfilter]
  simp [text?_encode]

/-- There is nothing else. -/
theorem all?_header (hname : n ≠ 1) (hdependency : n ≠ 3) :
    Reading.all? n read (headerRecords name dependencies) = some [] := by
  have hfilter : (headerRecords name dependencies).filter (·.1 = n) = [] := by
    rw [List.filter_eq_nil_iff]
    intro r hr
    rcases (mem_headerRecords hr).1 with hone | hthree
    · simpa [hone] using hname.symm
    · simpa [hthree] using hdependency.symm
  rw [Reading.all?, hfilter]
  rfl

theorem last?_header (hname : n ≠ 1) (hdependency : n ≠ 3) :
    Reading.last? n read (headerRecords name dependencies) = some none := by
  have hall : Reading.all? n read (headerRecords name dependencies) = some [] :=
    all?_header hname hdependency
  rw [Reading.all?] at hall
  rw [Reading.last?, hall]
  rfl

/-- The file comes back. -/
theorem decode?_header (h : (header name dependencies).length < 2 ^ 64) :
    FileDecl.decode? (header name dependencies)
      = some { name := name, dependencies := dependencies } := by
  have hrecords : Wire.readRecords? Pool.maxNesting (header name dependencies)
      = some (headerRecords name dependencies) := by
    refine Wire.readRecords?_writeRecords (Wire.recordsInRange_iff.mpr fun r hr => ?_) h
      (Wire.recordsDepth_le_iff.mpr fun r hr => ?_)
    · obtain ⟨hnumber, bs, hbs⟩ := mem_headerRecords hr
      rw [hbs]
      refine ⟨?_, trivial⟩
      rcases hnumber with hname | hdependency
      · rw [hname]
        exact ⟨by decide, by decide⟩
      · rw [hdependency]
        exact ⟨by decide, by decide⟩
    · obtain ⟨-, bs, hbs⟩ := mem_headerRecords hr
      rw [hbs]
      exact Nat.zero_le _
  simp [FileDecl.decode?, hrecords, last?_header_name, all?_header_dependencies, last?_header,
    all?_header]

end

/-- A server that has a file and one of the two that it depends on. -/
def twoFiles : Query → Except Failure (List Bytes)
  | .symbol _ => .ok [header "a" ["b", "c"]]
  | .file name => if name = "b" then .ok [header "b" []] else .error (.clientInit "not found")

theorem gather_gathers_twoFiles :
    Readable twoFiles ∧ twoFiles (.symbol "s") = .ok [header "a" ["b", "c"]] ∧
      ∃ g : Gathered, (gather (recorded twoFiles) "s").run []
          = (.ok g.files, .symbol "s" :: g.requested.map .file) ∧
        g.requested.Nodup ∧ Dictionary.contains "b" g.files = true := by
  have ha : FileDecl.decode? (header "a" ["b", "c"])
      = some { name := "a", dependencies := ["b", "c"] } := decode?_header (by decide +kernel)
  have hb : FileDecl.decode? (header "b" []) = some { name := "b" } :=
    decode?_header (by decide +kernel)
  have hreadable : Readable twoFiles := by
    intro q encoded h
    cases q with
    | symbol name =>
      obtain rfl := Except.ok.inj h
      exact List.forall_mem_singleton.mpr (by rw [ha]; rfl)
    | file name =>
      rw [twoFiles] at h
      split at h
      · obtain rfl := Except.ok.inj h
        exact List.forall_mem_singleton.mpr (by rw [hb]; rfl)
      · cases h
  have hfirst : twoFiles (.symbol "s") = .ok [header "a" ["b", "c"]] := rfl
  obtain ⟨hrun, hgathering⟩ := gather_gathers hreadable hfirst
  rw [decoded, List.filterMap_cons_some ha, List.filterMap_nil] at hrun hgathering
  have hfile := hgathering.first "a"
  rw [List.singleton_append, List.find?_cons_of_pos (by decide)] at hfile
  have hserves : Serves twoFiles "b" :=
    ⟨_, List.mem_filterMap.mpr ⟨header "b" [], List.mem_cons_self, hb⟩, rfl⟩
  have hstart : ∀ files, Chain twoFiles [{ name := "a", dependencies := ["b", "c"] }] files 0 "a" :=
    fun _ => .initial (f := { name := "a", dependencies := ["b", "c"] }) List.mem_cons_self
  have hthere := hgathering.reached 1 (by decide) "b"
    (.dependency (hstart _) hfile List.mem_cons_self hserves)
  exact ⟨hreadable, hfirst, _, hrun, hgathering.once, hthere⟩

/-- A server that sends a file with the service and another of that name when it is asked for
it, and only the other depends on a third. -/
def twoOfOneName : Query → Except Failure (List Bytes)
  | .symbol _ => .ok [header "a" ["b"], header "b" []]
  | .file name =>
    if name = "b" then .ok [header "b" ["c"]]
    else if name = "c" then .ok [header "c" []]
    else .error (.clientInit "not found")

/-- Two files with one name: the third is two dependencies away, each of which the server has
under its own name, and is not gathered, for the file that came first does not depend on it. -/
theorem gather_twoOfOneName :
    Readable twoOfOneName ∧
      twoOfOneName (.symbol "s") = .ok [header "a" ["b"], header "b" []] ∧
      Reaches twoOfOneName (decoded [header "a" ["b"], header "b" []]) 2 { name := "c" } ∧
      ∃ files, (gather (recorded twoOfOneName) "s").run [] = (.ok files, [.symbol "s"]) ∧
        Dictionary.contains "c" files = false := by
  have ha : FileDecl.decode? (header "a" ["b"]) = some { name := "a", dependencies := ["b"] } :=
    decode?_header (by decide +kernel)
  have hb : FileDecl.decode? (header "b" []) = some { name := "b" } :=
    decode?_header (by decide +kernel)
  have hb' : FileDecl.decode? (header "b" ["c"]) = some { name := "b", dependencies := ["c"] } :=
    decode?_header (by decide +kernel)
  have hc : FileDecl.decode? (header "c" []) = some { name := "c" } :=
    decode?_header (by decide +kernel)
  have hreadable : Readable twoOfOneName := by
    intro q encoded h
    cases q with
    | symbol name =>
      obtain rfl := Except.ok.inj h
      exact List.forall_mem_cons.mpr
        ⟨by rw [ha]; rfl, List.forall_mem_singleton.mpr (by rw [hb]; rfl)⟩
    | file name =>
      rw [twoOfOneName] at h
      split at h
      · obtain rfl := Except.ok.inj h
        exact List.forall_mem_singleton.mpr (by rw [hb']; rfl)
      · split at h
        · obtain rfl := Except.ok.inj h
          exact List.forall_mem_singleton.mpr (by rw [hc]; rfl)
        · cases h
  have hfirst : twoOfOneName (.symbol "s") = .ok [header "a" ["b"], header "b" []] := rfl
  have hrun := gather_recorded hreadable hfirst
  have hinitial : decoded [header "a" ["b"], header "b" []]
      = [{ name := "a", dependencies := ["b"] }, { name := "b" }] := by
    rw [decoded, List.filterMap_cons_some ha, List.filterMap_cons_some hb, List.filterMap_nil]
  rw [hinitial] at hrun ⊢
  refine ⟨hreadable, hfirst, ?_, ?_⟩
  · -- from the first file to the other of the second name, and from that to the third
    refine .dependency (.dependency (.initial List.mem_cons_self)
      (g := { name := "b", dependencies := ["c"] }) List.mem_cons_self ?_) List.mem_cons_self ?_
    · exact List.mem_filterMap.mpr ⟨header "b" ["c"], List.mem_cons_self, hb'⟩
    · exact List.mem_filterMap.mpr ⟨header "c" [], List.mem_cons_self, hc⟩
  · -- nothing is wanted, for the file that was kept depends on nothing
    let g := started [{ name := "a", dependencies := ["b"] }, { name := "b" }]
    have hwanted : g.wanted = [] := by decide +kernel
    have hsame : after twoOfOneName g maxRounds = g :=
      Function.iterate_fixed (next_of_wanted hwanted) _
    rw [hsame] at hrun
    exact ⟨g.files, hrun, by decide +kernel⟩

end Switchboard.Grpc
