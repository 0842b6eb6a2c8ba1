import Mathlib.Logic.Relation
import Switchboard.Proofs.Dictionary
import Switchboard.Proto.Declaration

/-!
# The order of loading

Files are looked at one after another, and before a file is loaded the files it depends
on are looked at in the same way.  A file that has been seen is not looked at again, so
this ends, whatever depends on what.  Every file is loaded once.  It is loaded after
whatever it depends on, unless that depends on it in turn.

## Main definitions

* `Visits` — looking at files by their names, one after another.
* `DependsOn` — one given file depends on another.
* `Precedes` — one comes before the other.

## Main results

* `exists_visits` — looking at files comes to an end.
* `loadOrder_visits` — the work is done as the visits say.
* `Visits.precedes` — a dependency is loaded first, unless it leads back.
* `arrange_arranges` — **the files in the order of loading**: each of them once, each
  after all that it depends on, in an order that only the names decide.
-/

namespace Switchboard.Proto.FileDecl

open List (Sublist)
open Relation (ReflTransGen TransGen)

/-! ### One before the other -/

/-- `a` stands in the list before `b`. -/
def Precedes {α : Type} (l : List α) (a b : α) : Prop := Sublist [a, b] l

theorem precedes_append {α : Type} {l l' : List α} {a b : α} (ha : a ∈ l) (hb : b ∈ l') :
    Precedes (l ++ l') a b :=
  (List.singleton_sublist.mpr ha).append (List.singleton_sublist.mpr hb)

theorem Precedes.append_left {α : Type} {l : List α} {a b : α} (h : Precedes l a b)
    (front : List α) : Precedes (front ++ l) a b :=
  h.trans (List.sublist_append_right front l)

theorem Precedes.append_right {α : Type} {l : List α} {a b : α} (h : Precedes l a b)
    (back : List α) : Precedes (l ++ back) a b :=
  h.trans (List.sublist_append_left l back)

/-- In a list without repetitions the order is transitive. -/
theorem Precedes.trans {α : Type} {l : List α} (hl : l.Nodup) {a b c : α}
    (hab : Precedes l a b) (hbc : Precedes l b c) : Precedes l a c := by
  induction l with
  | nil => exact absurd (hab.subset List.mem_cons_self) List.not_mem_nil
  | cons x l ih =>
    obtain ⟨hx, hl⟩ := List.nodup_cons.mp hl
    -- `b` stands behind something, so it is not the first
    have hb : b ∈ l := by
      cases hab with
      | cons _ h => exact h.subset (by simp)
      | cons_cons _ h => exact h.subset (by simp)
    have hbc' : Precedes l b c := by
      cases hbc with
      | cons _ h => exact h
      | cons_cons _ _ => exact absurd hb hx
    cases hab with
    | cons _ h => exact (ih hl h hbc').append_left [x]
    | cons_cons _ _ =>
      have hc : c ∈ l := hbc'.subset (by simp)
      exact (List.singleton_sublist.mpr hc).cons_cons a

/-! ### Looking at files -/

/-- Looking at the files with the given names, one after another: what has been seen
before, the names, what has been seen after, and the files that are loaded meanwhile. -/
inductive Visits (files : Dictionary FileDecl) :
    List String → List String → List String → List FileDecl → Prop
  /-- There are no more names. -/
  | done {seen : List String} : Visits files seen [] seen []
  /-- The file has been seen. -/
  | seen {name : String} {names seen seen' : List String} {loaded : List FileDecl} :
    name ∈ seen → Visits files seen names seen' loaded →
    Visits files seen (name :: names) seen' loaded
  /-- The file is not given. -/
  | absent {name : String} {names seen seen' : List String} {loaded : List FileDecl} :
    name ∉ seen → Dictionary.get? name files = none → Visits files seen names seen' loaded →
    Visits files seen (name :: names) seen' loaded
  /-- The file is loaded after its dependencies have been looked at. -/
  | load {name : String} {names seen between seen' : List String} {f : FileDecl}
      {first rest : List FileDecl} :
    name ∉ seen → Dictionary.get? name files = some f →
    Visits files (name :: seen) f.dependencies between first →
    Visits files between names seen' rest →
    Visits files seen (name :: names) seen' (first ++ f :: rest)

section

variable {files : Dictionary FileDecl} {names seen seen' : List String} {loaded : List FileDecl}

theorem unseen_mono (h : ∀ n ∈ seen, n ∈ seen') : unseen files seen' ≤ unseen files seen := by
  refine (List.monotone_filter_right files fun e he => ?_).length_le
  simp only [decide_eq_true_eq] at he ⊢
  exact fun hseen => he (h _ hseen)

theorem Visits.seen_subset (h : Visits files seen names seen' loaded) : ∀ n ∈ seen, n ∈ seen' := by
  induction h with
  | done => exact fun _ hn => hn
  | seen _ _ ih => exact ih
  | absent _ _ _ ih => exact ih
  | load _ _ _ _ ihfirst ihrest => exact fun n hn => ihrest n (ihfirst n (.tail _ hn))

/-- **Looking at files comes to an end**, whatever they depend on.  A file that is looked at
has fewer files after it that have not been seen; otherwise there is one name less. -/
theorem exists_visits (files : Dictionary FileDecl) (seen names : List String) :
    ∃ seen' loaded, Visits files seen names seen' loaded := by
  match names with
  | [] => exact ⟨seen, [], .done⟩
  | name :: names =>
    by_cases hname : name ∈ seen
    · obtain ⟨seen', loaded, h⟩ := exists_visits files seen names
      exact ⟨seen', loaded, .seen hname h⟩
    · cases hfile : Dictionary.get? name files with
      | none =>
        obtain ⟨seen', loaded, h⟩ := exists_visits files seen names
        exact ⟨seen', loaded, .absent hname hfile h⟩
      | some f =>
        have hless := unseen_cons_lt hfile hname
        obtain ⟨between, first, hfirst⟩ := exists_visits files (name :: seen) f.dependencies
        have hbetween : unseen files between ≤ unseen files (name :: seen) :=
          unseen_mono hfirst.seen_subset
        obtain ⟨seen', rest, hrest⟩ := exists_visits files between names
        exact ⟨seen', first ++ f :: rest, .load hname hfile hfirst hrest⟩
termination_by (unseen files seen, names.length)

/-- The work is done as the visits say. -/
theorem loadOrder_visits (h : Visits files seen names seen' loaded) (rest : List Work) :
    loadOrder files seen (names.map .enter ++ rest) = loaded ++ loadOrder files seen' rest := by
  induction h generalizing rest with
  | done => rfl
  | seen hname _ ih =>
    rw [List.map_cons, List.cons_append, loadOrder, dif_pos hname, ih]
  | absent hname hfile _ ih =>
    rw [List.map_cons, List.cons_append, loadOrder, dif_neg hname]
    split
    · exact ih rest
    · next f hsome => rw [hfile] at hsome; cases hsome
  | @load name _ _ _ _ f first more hname hfile _ _ ihfirst ihmore =>
    rw [List.map_cons, List.cons_append, loadOrder, dif_neg hname]
    split
    · next hnone => rw [hfile] at hnone; cases hnone
    · next f' hsome =>
      obtain rfl : f = f' := Option.some.inj (hfile.symm.trans hsome)
      rw [ihfirst, loadOrder, ihmore, List.append_assoc, List.cons_append]

end

/-! ### What is loaded -/

/-- Every file is given under its own name. -/
def Keyed (files : Dictionary FileDecl) : Prop :=
  ∀ name f, Dictionary.get? name files = some f → f.name = name

/-- One file depends on another that is given. -/
def Needs (files : Dictionary FileDecl) (f g : FileDecl) : Prop :=
  g.name ∈ f.dependencies ∧ Dictionary.get? g.name files = some g

section

variable {files : Dictionary FileDecl} {names seen seen' : List String} {loaded : List FileDecl}

/-- What is loaded is given. -/
theorem Visits.get?_of_mem (hfiles : Keyed files) (h : Visits files seen names seen' loaded) :
    ∀ f ∈ loaded, Dictionary.get? f.name files = some f := by
  induction h with
  | done => exact List.forall_mem_nil _
  | seen _ _ ih => exact ih
  | absent _ _ _ ih => exact ih
  | load _ hfile _ _ ihfirst ihrest =>
    intro g hg
    rcases List.mem_append.mp hg with hg | hg
    · exact ihfirst g hg
    · rcases List.mem_cons.mp hg with rfl | hg
      · rw [hfiles _ _ hfile, hfile]
      · exact ihrest g hg

/-- What has been seen afterwards was seen before or is loaded. -/
theorem Visits.mem_seen_iff (hfiles : Keyed files) (h : Visits files seen names seen' loaded)
    (n : String) : n ∈ seen' ↔ n ∈ seen ∨ n ∈ loaded.map FileDecl.name := by
  induction h with
  | done => simp
  | seen _ _ ih => exact ih
  | absent _ _ _ ih => exact ih
  | load _ hfile _ _ ihfirst ihrest =>
    rw [ihrest, ihfirst, List.map_append, List.map_cons, hfiles _ _ hfile, List.mem_append,
      List.mem_cons, List.mem_cons]
    tauto

/-- No file is loaded twice, and none that was seen before. -/
theorem Visits.nodup (hfiles : Keyed files) (h : Visits files seen names seen' loaded) :
    (loaded.map FileDecl.name).Nodup ∧ ∀ n ∈ loaded.map FileDecl.name, n ∉ seen := by
  induction h with
  | done => exact ⟨List.nodup_nil, List.forall_mem_nil _⟩
  | seen _ _ ih => exact ih
  | absent _ _ _ ih => exact ih
  | @load name _ seen between _ f first rest hname hfile hfirst _ ihfirst ihrest =>
    have hbetween := hfirst.mem_seen_iff hfiles
    rw [List.map_append, List.map_cons, hfiles _ _ hfile]
    constructor
    · refine List.nodup_append'.mpr ⟨ihfirst.1, List.nodup_cons.mpr ⟨fun hmem => ?_, ihrest.1⟩, ?_⟩
      · exact ihrest.2 name hmem ((hbetween name).mpr (.inl List.mem_cons_self))
      · intro n hn hn'
        rcases List.mem_cons.mp hn' with rfl | hn'
        · exact ihfirst.2 _ hn List.mem_cons_self
        · exact ihrest.2 n hn' ((hbetween n).mpr (.inr hn))
    · intro n hn hseen
      rcases List.mem_append.mp hn with hn | hn
      · exact ihfirst.2 n hn (.tail _ hseen)
      · rcases List.mem_cons.mp hn with rfl | hn
        · exact hname hseen
        · exact ihrest.2 n hn ((hbetween n).mpr (.inl (.tail _ hseen)))

/-- Every given file that is looked at has been seen afterwards. -/
theorem Visits.mem_seen (h : Visits files seen names seen' loaded) :
    ∀ n ∈ names, ∀ f, Dictionary.get? n files = some f → n ∈ seen' := by
  induction h with
  | done => exact List.forall_mem_nil _
  | seen hname hrest ih =>
    refine List.forall_mem_cons.mpr ⟨fun _ _ => ?_, ih⟩
    exact hrest.seen_subset _ hname
  | absent _ hfile _ ih =>
    refine List.forall_mem_cons.mpr ⟨fun f hf => ?_, ih⟩
    rw [hfile] at hf
    cases hf
  | load _ _ hfirst hrest _ ihrest =>
    refine List.forall_mem_cons.mpr ⟨fun _ _ => ?_, ihrest⟩
    exact hrest.seen_subset _ (hfirst.seen_subset _ List.mem_cons_self)

/-- What is loaded is depended on, directly or not, by one of the files looked at. -/
theorem Visits.reaches (hfiles : Keyed files) (h : Visits files seen names seen' loaded) :
    ∀ f ∈ loaded, ∃ n ∈ names, ∃ g, Dictionary.get? n files = some g ∧
      ReflTransGen (Needs files) g f := by
  induction h with
  | done => exact List.forall_mem_nil _
  | seen _ _ ih => exact fun f hf => (ih f hf).imp fun _ hn => ⟨.tail _ hn.1, hn.2⟩
  | absent _ _ _ ih => exact fun f hf => (ih f hf).imp fun _ hn => ⟨.tail _ hn.1, hn.2⟩
  | load _ hfile _ _ ihfirst ihrest =>
    intro g hg
    rcases List.mem_append.mp hg with hg | hg
    · obtain ⟨n, hn, d, hd, hpath⟩ := ihfirst g hg
      have hneeds : Needs files _ d := ⟨hfiles _ _ hd ▸ hn, hfiles _ _ hd ▸ hd⟩
      exact ⟨_, List.mem_cons_self, _, hfile, hpath.head hneeds⟩
    · rcases List.mem_cons.mp hg with rfl | hg
      · exact ⟨_, List.mem_cons_self, _, hfile, .refl⟩
      · exact (ihrest g hg).imp fun _ hn => ⟨.tail _ hn.1, hn.2⟩

/-- **A dependency is loaded first**, unless it was seen before, or leads back to the file
that depends on it. -/
theorem Visits.precedes (hfiles : Keyed files) (h : Visits files seen names seen' loaded) :
    ∀ f ∈ loaded, ∀ g, Needs files f g →
      g.name ∈ seen ∨ Precedes loaded g f ∨ ReflTransGen (Needs files) g f := by
  induction h with
  | done => exact List.forall_mem_nil _
  | seen _ _ ih => exact ih
  | absent _ _ _ ih => exact ih
  | @load name _ seen between _ f₀ first rest _ hfile hfirst _ ihfirst ihrest =>
    have hsame : ∀ g, Dictionary.get? g.name files = some g → g.name = name → g = f₀ := by
      intro g hg hname
      rw [hname, hfile] at hg
      exact (Option.some.inj hg).symm
    -- what has been seen before the other names: what was seen, this file, its dependencies
    have hbetween : ∀ g, Dictionary.get? g.name files = some g → g.name ∈ between →
        g.name ∈ seen ∨ g = f₀ ∨ g ∈ first := by
      intro g hg hmem
      rcases (hfirst.mem_seen_iff hfiles g.name).mp hmem with hmem | hmem
      · rcases List.mem_cons.mp hmem with hname | hmem
        · exact .inr (.inl (hsame g hg hname))
        · exact .inl hmem
      · obtain ⟨g', hg', hname⟩ := List.mem_map.mp hmem
        have hget := hfirst.get?_of_mem hfiles g' hg'
        rw [hname, hg] at hget
        exact .inr (.inr (Option.some.inj hget ▸ hg'))
    intro f hf g hneeds
    rcases List.mem_append.mp hf with hf | hf
    · rcases ihfirst f hf g hneeds with hseen | hprec | hback
      · rcases List.mem_cons.mp hseen with hname | hseen
        · -- it depends on the file whose dependencies are being looked at
          obtain ⟨n, hn, d, hd, hpath⟩ := hfirst.reaches hfiles f hf
          have hneeds' : Needs files f₀ d := ⟨hfiles _ _ hd ▸ hn, hfiles _ _ hd ▸ hd⟩
          rw [hsame g hneeds.2 hname]
          exact .inr (.inr (hpath.head hneeds'))
        · exact .inl hseen
      · exact .inr (.inl (hprec.append_right _))
      · exact .inr (.inr hback)
    · rcases List.mem_cons.mp hf with rfl | hf
      · have hmem := hfirst.mem_seen _ hneeds.1 g hneeds.2
        rcases hbetween g hneeds.2 hmem with hseen | rfl | hg
        · exact .inl hseen
        · exact .inr (.inr .refl)
        · exact .inr (.inl (precedes_append hg List.mem_cons_self))
      · rcases ihrest f hf g hneeds with hmem | hprec | hback
        · have hbehind : Precedes (first ++ f₀ :: rest) f₀ f :=
            .append_left ((List.singleton_sublist.mpr hf).cons_cons f₀) first
          rcases hbetween g hneeds.2 hmem with hseen | rfl | hg
          · exact .inl hseen
          · exact .inr (.inl hbehind)
          · exact .inr (.inl (precedes_append hg (.tail _ hf)))
        · exact .inr (.inl ((hprec.append_left [f₀]).append_left first))
        · exact .inr (.inr hback)

end

/-! ### The given files -/

/-- Among the given files, one depends on another. -/
def DependsOn (files : List FileDecl) (f g : FileDecl) : Prop :=
  f ∈ files ∧ g ∈ files ∧ g.name ∈ f.dependencies

section

variable {files : List FileDecl}

theorem keys_byName (files : List FileDecl) :
    (files.map fun f => (f.name, f)).map Prod.fst = files.map FileDecl.name := by
  rw [List.map_map]
  rfl

theorem get?_byName (hnames : (files.map FileDecl.name).Nodup) {n : String} {f : FileDecl} :
    Dictionary.get? n (byName files) = some f ↔ f ∈ files ∧ f.name = n := by
  have hkeys := hnames
  rw [← keys_byName] at hkeys
  constructor
  · intro h
    obtain ⟨g, hg, heq⟩ := List.mem_map.mp (Dictionary.mem_ofList (Dictionary.mem_of_get? h))
    obtain ⟨rfl, rfl⟩ := Prod.mk.inj heq
    exact ⟨hg, rfl⟩
  · rintro ⟨hf, rfl⟩
    refine (Dictionary.ordered_ofList _).get?_of_mem ?_
    exact (Dictionary.mem_ofList_iff hkeys).mpr (List.mem_map_of_mem hf)

theorem keyed_byName (hnames : (files.map FileDecl.name).Nodup) : Keyed (byName files) :=
  fun _ _ h => ((get?_byName hnames).mp h).2

theorem needs_iff (hnames : (files.map FileDecl.name).Nodup) {f g : FileDecl} (hf : f ∈ files) :
    Needs (byName files) f g ↔ DependsOn files f g := by
  rw [Needs, get?_byName hnames, DependsOn]
  tauto

/-- What follows from a file by what given files depend on. -/
theorem dependsOn_of_needs (hnames : (files.map FileDecl.name).Nodup) {f g : FileDecl}
    (hf : f ∈ files) (h : ReflTransGen (Needs (byName files)) f g) :
    ReflTransGen (DependsOn files) f g := by
  induction h with
  | refl => exact .refl
  | tail hpath hneeds ih =>
    refine ih.tail ((needs_iff hnames ?_).mp hneeds)
    cases hpath with
    | refl => exact hf
    | tail _ h => exact ((get?_byName hnames).mp h.2).1

theorem exists_arrange (files : List FileDecl) :
    ∃ seen, Visits (byName files) [] (byName files).keys seen (arrange files) := by
  obtain ⟨seen, loaded, h⟩ := exists_visits (byName files) [] (byName files).keys
  have heq : arrange files = loaded := by
    have hload := loadOrder_visits h []
    rw [List.append_nil, loadOrder, List.append_nil] at hload
    exact hload
  exact ⟨seen, heq ▸ h⟩

theorem perm_arrange (hnames : (files.map FileDecl.name).Nodup) : (arrange files).Perm files := by
  obtain ⟨seen, h⟩ := exists_arrange files
  have hfiles := keyed_byName hnames
  have hloaded := (h.nodup hfiles).1
  refine (List.perm_ext_iff_of_nodup (.of_map _ hloaded) (.of_map _ hnames)).mpr fun f => ?_
  refine ⟨fun hf => ((get?_byName hnames).mp (h.get?_of_mem hfiles f hf)).1, fun hf => ?_⟩
  have hget : Dictionary.get? f.name (byName files) = some f := (get?_byName hnames).mpr ⟨hf, rfl⟩
  have hkey : f.name ∈ (byName files).keys :=
    List.mem_map_of_mem (Dictionary.mem_of_get? hget)
  have hseen := h.mem_seen f.name hkey f hget
  rcases (h.mem_seen_iff hfiles f.name).mp hseen with hnil | hmem
  · exact absurd hnil List.not_mem_nil
  · obtain ⟨g, hg, hname⟩ := List.mem_map.mp hmem
    have hget' := h.get?_of_mem hfiles g hg
    rw [hname, hget] at hget'
    exact Option.some.inj hget' ▸ hg

/-- A file comes after a file that it depends on, unless that one depends on it in turn. -/
theorem precedes_of_dependsOn (hnames : (files.map FileDecl.name).Nodup) {f g : FileDecl}
    (h : DependsOn files f g) (hback : ¬ ReflTransGen (DependsOn files) g f) :
    Precedes (arrange files) g f := by
  obtain ⟨seen, hvisits⟩ := exists_arrange files
  have hf : f ∈ arrange files := (perm_arrange hnames).mem_iff.mpr h.1
  have hneeds := (needs_iff hnames h.1).mpr h
  rcases hvisits.precedes (keyed_byName hnames) f hf g hneeds with hnil | hprec | hpath
  · exact absurd hnil List.not_mem_nil
  · exact hprec
  · exact absurd (dependsOn_of_needs hnames h.2.1 hpath) hback

/-- Where nothing depends on itself, a file comes after all that it depends on, directly or
not. -/
theorem precedes_of_acyclic (hnames : (files.map FileDecl.name).Nodup)
    (hacyclic : ∀ f, ¬ TransGen (DependsOn files) f f) {f g : FileDecl}
    (h : TransGen (DependsOn files) f g) : Precedes (arrange files) g f := by
  have hdirect : ∀ {f g}, DependsOn files f g → Precedes (arrange files) g f := fun h =>
    precedes_of_dependsOn hnames h fun hback => hacyclic _ (.head' h hback)
  have hnodup : (arrange files).Nodup :=
    (perm_arrange hnames).nodup_iff.mpr (.of_map _ hnames)
  induction h with
  | single h => exact hdirect h
  | tail _ h ih => exact (hdirect h).trans hnodup ih

theorem arrange_perm {files' : List FileDecl} (hnames : (files.map FileDecl.name).Nodup)
    (hperm : files'.Perm files) : arrange files' = arrange files := by
  have hkeys := hnames
  rw [← keys_byName] at hkeys
  have hsame : byName files' = byName files := Dictionary.ofList_perm hkeys (hperm.map _)
  rw [arrange, arrange, hsame]

/-- **The files in the order of loading.**  They are found by looking at them in the order
of their names, which comes to an end whatever depends on what.  Each is loaded exactly once
and nothing else is; where no file depends on itself through others, each comes after all
the given files that it depends on, directly or not; and the order in which the files were
given makes no difference. -/
theorem arrange_arranges (hnames : (files.map FileDecl.name).Nodup) :
    (∃ seen, Visits (byName files) [] (byName files).keys seen (arrange files)) ∧
      (arrange files).Perm files ∧
      ((∀ f, ¬ TransGen (DependsOn files) f f) →
        ∀ f g, TransGen (DependsOn files) f g → Precedes (arrange files) g f) ∧
      ∀ files' : List FileDecl, files'.Perm files → arrange files' = arrange files :=
  ⟨exists_arrange files, perm_arrange hnames,
    fun hacyclic _ _ h => precedes_of_acyclic hnames hacyclic h,
    fun _ hperm => arrange_perm hnames hperm⟩

end

/-- A file that depends on nothing. -/
def commonFile : FileDecl := { name := "common/status.proto" }

/-- A file that depends on it, and on one that is not given. -/
def usersFile : FileDecl :=
  { name := "users.proto", dependencies := ["common/status.proto", "common/absent.proto"] }

/-- Whichever is given first, the other is loaded after it has what it depends on. -/
theorem arrange_arranges_users :
    ([usersFile, commonFile].map FileDecl.name).Nodup ∧
      Precedes (arrange [usersFile, commonFile]) commonFile usersFile ∧
      arrange [commonFile, usersFile] = arrange [usersFile, commonFile] := by
  have hnames : ([usersFile, commonFile].map FileDecl.name).Nodup := by decide
  have hdepends : DependsOn [usersFile, commonFile] usersFile commonFile := by
    simp [DependsOn, usersFile, commonFile]
  have honly : ∀ f g, DependsOn [usersFile, commonFile] f g →
      f.name = usersFile.name ∧ g.name = commonFile.name := by
    rintro f g ⟨hf, hg, hname⟩
    simp only [List.mem_cons, List.not_mem_nil, or_false] at hf hg
    rcases hf with rfl | rfl <;> rcases hg with rfl | rfl
    · exact absurd hname (by decide)
    · exact ⟨rfl, rfl⟩
    · exact absurd hname (by decide)
    · exact absurd hname (by decide)
  have hacyclic : ∀ f, ¬ TransGen (DependsOn [usersFile, commonFile]) f f := by
    intro f hloop
    obtain ⟨g, hfirst, -⟩ := Relation.TransGen.head'_iff.mp hloop
    obtain ⟨g', -, hlast⟩ := Relation.TransGen.tail'_iff.mp hloop
    have hsame := (honly _ _ hfirst).1.symm.trans (honly _ _ hlast).2
    exact absurd hsame (by decide)
  obtain ⟨-, -, hafter, hsame⟩ := arrange_arranges hnames
  exact ⟨hnames, hafter hacyclic _ _ (.single hdepends), hsame _ (List.Perm.swap ..)⟩

end Switchboard.Proto.FileDecl
