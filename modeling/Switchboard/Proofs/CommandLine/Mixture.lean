import Mathlib.Data.List.Basic
import Switchboard.CommandLine.Arguments

/-!
# Options among positional arguments

The option that names the catalog may stand anywhere among the positional arguments, in
each of its spellings and as often as one likes.  The arguments are taken from the left; an
option that is followed by its path takes the next argument with it, whatever that looks
like, so that what an argument is depends on those before it.

## Main definitions

* `Item`, `Item.words` — an option or a positional argument, and the arguments that spell it.
* `lastPath`, `positionals` — what a mixture of items comes to.
* `Names` — what a sequence of positional arguments asks for.
* `IsPath` — the arguments that are taken by the option in front of them.
* `IsUnknown` — the options that do not exist.
* `Wished` — a wish for the usage text that is to be heard.

## Main results

* `gather_words` — what is found in a mixture.
* `parse_words_eq_ok_iff`, `parse_words_eq_error_iff` — what it asks for.
* `gather_of_wish` — such a wish is heard.
* `Command.parse_mixture` — **what a mixture of options and positional arguments asks for**,
  and when any list of arguments asks for the usage text.
-/

namespace Switchboard.CommandLine

open Json

/-! ### What the arguments are -/

/-- A positional argument does not begin with a hyphen, unless it is nothing else. -/
def IsPositional (arg : String) : Prop := arg = "-" ∨ arg.toList.head? ≠ some '-'

instance (arg : String) : Decidable (IsPositional arg) :=
  inferInstanceAs (Decidable (_ ∨ _))

/-- The ways to write the option that names the catalog. -/
inductive Spelling where
  /-- By its letter, with the path as the next argument. -/
  | short
  /-- By its name, with the path as the next argument. -/
  | long
  /-- By its name, with the path in the same argument. -/
  | joined
  deriving DecidableEq, Repr

/-- An option with its path, or a positional argument. -/
inductive Item where
  /-- The option that names the catalog. -/
  | catalog (spelling : Spelling) (path : String)
  /-- A positional argument. -/
  | positional (arg : String) (h : IsPositional arg)

namespace Item

/-- The arguments that spell an item. -/
def words : Item → List String
  | .catalog .short path => ["-c", path]
  | .catalog .long path => ["--config", path]
  | .catalog .joined path => ["--config=" ++ path]
  | .positional arg _ => [arg]

/-- The path that an option names. -/
def path? : Item → Option String
  | .catalog _ path => some path
  | .positional .. => none

/-- The positional argument that an item is. -/
def positional? : Item → Option String
  | .catalog .. => none
  | .positional arg _ => some arg

end Item

/-- The path that the last option of a mixture names. -/
def lastPath (items : List Item) : Option String := (items.filterMap Item.path?).getLast?

/-- The positional arguments of a mixture, in order. -/
def positionals (items : List Item) : List String := items.filterMap Item.positional?

/-- What positional arguments ask for: an endpoint, and the object of parameters that the
second of them spells. -/
inductive Names : List String → String → Option (Dictionary Value) → Prop where
  /-- Only the endpoint is named. -/
  | endpoint (e : String) : Names [e] e none
  /-- Parameters are given besides. -/
  | params (e text : String) (ms : Dictionary Value)
      (h : Value.ofText? text.toList = some (.object ms)) : Names [e, text] e (some ms)

/-- The argument at a position is taken as a path, as the one in front of it is an option
that is followed by its path, and not a path itself. -/
def IsPath (args : List String) : ℕ → Prop
  | 0 => False
  | i + 1 => (args[i]? = some "-c" ∨ args[i]? = some "--config") ∧ ¬ IsPath args i

/-- An argument that begins with a hyphen, has more than that, and is no option. -/
def IsUnknown (arg : String) : Prop :=
  ¬ IsPositional arg ∧ arg ∉ ["-h", "--help", "-c", "--config"] ∧
    ¬ "--config=".toList <+: arg.toList

/-! ### How an argument is taken -/

/-- The form that an argument has which is taken in a certain way. -/
def Argument.Describes (arg : String) : Argument → Prop
  | .help => arg = "-h" ∨ arg = "--help"
  | .catalog => arg = "-c" ∨ arg = "--config"
  | .catalogPath path => arg = "--config=" ++ path
  | .unknown => IsUnknown arg
  | .positional => IsPositional arg

theorem toList_joined (path : String) :
    ("--config=" ++ path).toList = catalogStem ++ path.toList := String.toList_append

theorem isPositional_of_toList {arg : String} (h : ∀ c cs, arg.toList ≠ '-' :: c :: cs) :
    IsPositional arg := by
  cases hcs : arg.toList with
  | nil =>
    right
    rw [hcs]
    simp
  | cons c cs =>
    by_cases hc : c = '-'
    · left
      subst hc
      cases cs with
      | nil => exact String.toList_injective hcs
      | cons c cs => exact absurd hcs (h c cs)
    · right
      rw [hcs]
      simpa using hc

/-- What begins with a hyphen and is more than that is no positional argument. -/
theorem not_isPositional {arg : String} {c : Char} {cs : List Char}
    (h : arg.toList = '-' :: c :: cs) : ¬ IsPositional arg := by
  rintro (rfl | hhead)
  · cases h
  · exact hhead (by rw [h, List.head?_cons])

/-- Every argument has the form that goes with the way in which it is taken. -/
theorem Argument.describes_of (arg : String) : Argument.Describes arg (Argument.of arg) := by
  rw [Argument.of]
  split
  · assumption
  · split
    · assumption
    · next hhelp hcatalog =>
      split
      · next hstem =>
        obtain ⟨cs, hcs⟩ := List.isPrefixOf_iff_prefix.mp hstem
        rw [Describes]
        apply String.toList_injective
        rw [← hcs, List.drop_left, toList_joined, String.toList_ofList]
      · next hstem =>
        split
        · next c cs hcs =>
          refine ⟨not_isPositional hcs, ?_, ?_⟩
          · simp only [List.mem_cons, List.not_mem_nil, or_false]
            tauto
          · exact fun hpre => hstem (List.isPrefixOf_iff_prefix.mpr hpre)
        · next hcs => exact isPositional_of_toList fun c cs h => hcs c cs h

theorem Argument.of_positional {arg : String} (h : IsPositional arg) :
    Argument.of arg = .positional := by
  have hform := Argument.describes_of arg
  cases hof : Argument.of arg with
  | positional => rfl
  | help =>
    rw [hof] at hform
    rcases hform with rfl | rfl
    · exact absurd h (by decide)
    · exact absurd h (by decide)
  | catalog =>
    rw [hof] at hform
    rcases hform with rfl | rfl
    · exact absurd h (by decide)
    · exact absurd h (by decide)
  | catalogPath path =>
    rw [hof] at hform
    obtain rfl : arg = "--config=" ++ path := hform
    exact absurd h (not_isPositional (toList_joined path))
  | unknown =>
    rw [hof] at hform
    exact absurd h hform.1

/-- With a path in it, the option is longer than any word. -/
theorem joined_ne (path : String) {word : String}
    (h : word.toList.length < catalogStem.length) : "--config=" ++ path ≠ word := by
  intro heq
  have hlength := congrArg List.length (toList_joined path)
  rw [heq, List.length_append] at hlength
  omega

theorem Argument.of_joined (path : String) :
    Argument.of ("--config=" ++ path) = .catalogPath path := by
  have hform := Argument.describes_of ("--config=" ++ path)
  cases hof : Argument.of ("--config=" ++ path) with
  | catalogPath path' =>
    rw [hof] at hform
    have hchars := congrArg String.toList hform
    rw [toList_joined, toList_joined] at hchars
    rw [String.toList_injective (List.append_cancel_left hchars)]
  | help =>
    rw [hof] at hform
    rcases hform with h | h
    · exact absurd h (joined_ne path (by decide))
    · exact absurd h (joined_ne path (by decide))
  | catalog =>
    rw [hof] at hform
    rcases hform with h | h
    · exact absurd h (joined_ne path (by decide))
    · exact absurd h (joined_ne path (by decide))
  | unknown =>
    rw [hof] at hform
    exact absurd (toList_joined path ▸ List.prefix_append _ _) hform.2.2
  | positional =>
    rw [hof] at hform
    exact absurd hform (not_isPositional (toList_joined path))

/-! ### Mixtures -/

theorem lastPath_cons_catalog (spelling : Spelling) (path : String) (items : List Item) :
    lastPath (.catalog spelling path :: items) = some ((lastPath items).getD path) := by
  simp [lastPath, Item.path?, List.getLast?_cons]

/-! ### One argument after another -/

section

variable {arg : String} {catalog : Option String} {rest : List String}

theorem gather_of_help (h : Argument.of arg = .help) : gather catalog (arg :: rest) = .ok none := by
  rw [gather.eq_def]
  simp only [h]

theorem gather_of_path {path : String} (h : Argument.of arg = .catalogPath path) :
    gather catalog (arg :: rest) = gather (some path) rest := by
  rw [gather.eq_def]
  simp only [h]

theorem gather_of_catalog (h : Argument.of arg = .catalog) (path : String) :
    gather catalog (arg :: path :: rest) = gather (some path) rest := by
  rw [gather.eq_def]
  simp only [h]

theorem gather_of_positional (h : Argument.of arg = .positional) :
    gather catalog (arg :: rest)
      = (gather catalog rest).map (Option.map fun r => (r.1, arg :: r.2)) := by
  rw [gather.eq_def]
  simp only [h]
  cases gather catalog rest <;> rfl

end

/-- In a mixture the last path is found, or the one in hand if there is none, and all
positional arguments. -/
theorem gather_words (items : List Item) : ∀ catalog : Option String,
    gather catalog (items.flatMap Item.words)
      = .ok (some ((lastPath items).or catalog, positionals items)) := by
  induction items with
  | nil =>
    intro catalog
    rfl
  | cons item items ih =>
    intro catalog
    cases item with
    | catalog spelling path =>
      have hwords : gather catalog ((Item.catalog spelling path :: items).flatMap Item.words)
          = gather (some path) (items.flatMap Item.words) := by
        rw [List.flatMap_cons]
        cases spelling with
        | short => exact gather_of_catalog (by decide) path
        | long => exact gather_of_catalog (by decide) path
        | joined => exact gather_of_path (Argument.of_joined path)
      rw [hwords, ih, lastPath_cons_catalog]
      cases lastPath items <;> rfl
    | positional arg h =>
      rw [List.flatMap_cons, Item.words, List.singleton_append,
        gather_of_positional (Argument.of_positional h), ih]
      rfl

/-- What a mixture asks for is what its positional arguments ask for, with the last path. -/
theorem parse_words (items : List Item) : Command.parse (items.flatMap Item.words)
    = (ofPositionals (lastPath items) (positionals items)).map .call := by
  rw [Command.parse, gather_words, Option.or_none]
  cases h : ofPositionals (lastPath items) (positionals items) with
  | error u => simp [bind, Except.bind, h, Except.map]
  | ok call => simp [bind, Except.bind, h, Except.map, pure, Except.pure]

/-! ### Positional arguments -/

theorem parseParams_eq_ok_iff {text : String} {ms : Dictionary Value} :
    parseParams text = .ok ms ↔ Value.ofText? text.toList = some (.object ms) := by
  rw [parseParams]
  split
  · next h => simp [h]
  · next ms' h => simp [h]
  · next v hobject h =>
    rw [h]
    constructor
    · intro heq
      cases heq
    · intro heq
      exact absurd (Option.some.inj heq) (hobject ms)

/-- Positional arguments make a call exactly if they name one. -/
theorem ofPositionals_eq_ok_iff (catalog : Option String) (args : List String)
    (call : CallArguments) : ofPositionals catalog args = .ok call ↔
      Names args call.endpoint call.params ∧ call.catalog = catalog := by
  obtain ⟨catalog', endpoint, params⟩ := call
  constructor
  · intro h
    match args with
    | [] => cases h
    | [_] =>
      cases h
      exact ⟨.endpoint _, rfl⟩
    | _ :: text :: rest =>
      rw [ofPositionals] at h
      cases hparams : parseParams text with
      | error u =>
        rw [hparams] at h
        cases h
      | ok ms =>
        rw [hparams] at h
        cases rest with
        | cons extra rest => cases h
        | nil =>
          cases h
          exact ⟨.params _ text _ (parseParams_eq_ok_iff.mp hparams), rfl⟩
  · rintro ⟨hnames, rfl⟩
    cases hnames with
    | endpoint => rfl
    | params e text ms h =>
      rw [ofPositionals, parseParams_eq_ok_iff.mpr h]
      rfl

/-- A mixture asks for a call exactly if its positional arguments name one. -/
theorem parse_words_eq_ok_iff (items : List Item) (cmd : Command) :
    Command.parse (items.flatMap Item.words) = .ok cmd ↔
      ∃ e params, Names (positionals items) e params ∧
        cmd = .call ⟨lastPath items, e, params⟩ := by
  rw [parse_words]
  constructor
  · intro h
    cases hcall : ofPositionals (lastPath items) (positionals items) with
    | error u =>
      rw [hcall] at h
      cases h
    | ok call =>
      rw [hcall] at h
      cases h
      obtain ⟨hnames, hpath⟩ := (ofPositionals_eq_ok_iff _ _ _).mp hcall
      exact ⟨call.endpoint, call.params, hnames, by rw [← hpath]⟩
  · rintro ⟨e, params, hnames, rfl⟩
    rw [(ofPositionals_eq_ok_iff _ _ ⟨lastPath items, e, params⟩).mpr ⟨hnames, rfl⟩]
    rfl

/-- If they do not, it asks for nothing. -/
theorem parse_words_eq_error_iff (items : List Item) :
    (∃ u, Command.parse (items.flatMap Item.words) = .error u) ↔
      ¬ ∃ e params, Names (positionals items) e params := by
  constructor
  · rintro ⟨u, hu⟩ ⟨e, params, hnames⟩
    rw [(parse_words_eq_ok_iff items _).mpr ⟨e, params, hnames, rfl⟩] at hu
    cases hu
  · intro hno
    cases hparse : Command.parse (items.flatMap Item.words) with
    | error u => exact ⟨u, rfl⟩
    | ok cmd =>
      obtain ⟨e, params, hnames, -⟩ := (parse_words_eq_ok_iff items cmd).mp hparse
      exact absurd ⟨e, params, hnames⟩ hno

/-! ### The usage text -/

/-- An argument that takes no other leaves those behind it as they are. -/
theorem isPath_cons {arg : String} (h : arg ≠ "-c" ∧ arg ≠ "--config") (args : List String)
    (i : ℕ) : IsPath (arg :: args) (i + 1) ↔ IsPath args i := by
  induction i with
  | zero => simp [IsPath, h]
  | succ i ih =>
    rw [IsPath, ih]
    simp [IsPath]

/-- Behind an option and its path it is as if neither stood there. -/
theorem isPath_cons_cons {arg : String} (h : arg = "-c" ∨ arg = "--config") (path : String)
    (args : List String) (i : ℕ) : IsPath (arg :: path :: args) (i + 2) ↔ IsPath args i := by
  induction i with
  | zero => rcases h with rfl | rfl <;> simp [IsPath]
  | succ i ih =>
    rw [IsPath, ih]
    simp [IsPath]

/-- A wish for the usage text that is not taken as a path, with no option in front of it
that does not exist. -/
structure Wished (args : List String) (i : ℕ) : Prop where
  wish : args[i]? = some "-h" ∨ args[i]? = some "--help"
  untaken : ¬ IsPath args i
  known : ∀ j < i, ¬ IsPath args j → ∀ arg, args[j]? = some arg → ¬ IsUnknown arg

section

variable {arg path : String} {rest : List String} {i : ℕ}

theorem Wished.tail (h : Wished (arg :: rest) (i + 1)) (halone : arg ≠ "-c" ∧ arg ≠ "--config") :
    Wished rest i where
  wish := by simpa using h.wish
  untaken := fun hpath => h.untaken ((isPath_cons halone rest i).mpr hpath)
  known := by
    intro j hj hjpath arg' harg'
    apply h.known (j + 1) (by omega) (fun hp => hjpath ((isPath_cons halone rest j).mp hp)) arg'
    simpa using harg'

theorem Wished.drop (h : Wished (arg :: path :: rest) (i + 2))
    (hoption : arg = "-c" ∨ arg = "--config") : Wished rest i where
  wish := by simpa using h.wish
  untaken := fun hpath => h.untaken ((isPath_cons_cons hoption path rest i).mpr hpath)
  known := by
    intro j hj hjpath arg' harg'
    apply h.known (j + 2) (by omega)
      (fun hp => hjpath ((isPath_cons_cons hoption path rest j).mp hp)) arg'
    simpa using harg'

/-- An argument that takes no other is none of the options that do. -/
theorem Argument.alone_of {arg : String} (h : Argument.of arg ≠ .catalog) :
    arg ≠ "-c" ∧ arg ≠ "--config" := by
  constructor
  · rintro rfl
    exact h (by decide)
  · rintro rfl
    exact h (by decide)

end

/-- Such a wish is heard. -/
theorem gather_of_wish : ∀ (i : ℕ) (catalog : Option String) (args : List String),
    Wished args i → gather catalog args = .ok none := by
  intro i
  -- an argument is taken alone or with its path, and what follows is a shorter list
  induction i using Nat.strongRecOn with
  | _ i ih =>
    intro catalog args h
    cases args with
    | nil => simpa using h.wish
    | cons arg rest =>
      cases i with
      | zero =>
        have harg : arg = "-h" ∨ arg = "--help" := by simpa using h.wish
        apply gather_of_help
        rcases harg with rfl | rfl <;> decide
      | succ i =>
        have hform := Argument.describes_of arg
        -- the same wish, behind an argument that is taken alone
        have hrest : ∀ catalog, Argument.of arg ≠ .catalog → gather catalog rest = .ok none := by
          intro catalog hof
          exact ih i (Nat.lt_succ_self i) catalog rest (h.tail (Argument.alone_of hof))
        cases hof : Argument.of arg with
        | help => exact gather_of_help hof
        | catalogPath path =>
          rw [gather_of_path hof]
          exact hrest _ (by simp [hof])
        | positional =>
          rw [gather_of_positional hof, hrest _ (by simp [hof])]
          rfl
        | unknown =>
          rw [hof] at hform
          exact absurd hform (h.known 0 (Nat.succ_pos i) (fun hpath => hpath) arg rfl)
        | catalog =>
          rw [hof] at hform
          have hoption : arg = "-c" ∨ arg = "--config" := hform
          cases i with
          | zero =>
            -- the wish would be the path
            have htaken : IsPath (arg :: rest) 1 := by simpa [IsPath] using hoption
            exact absurd htaken h.untaken
          | succ i =>
            cases rest with
            | nil => simpa using h.wish
            | cons path rest =>
              rw [gather_of_catalog hof]
              exact ih i (by omega) (some path) rest (h.drop hoption)

/-- **What a mixture of options and positional arguments asks for.**  It asks for a call
exactly if its positional arguments name one, and then for that call with the path of the
last option; in any other case it asks for nothing.  Nothing else of the mixture counts, not
even for the error.  And in any list of arguments a wish for the usage text is heard that is
not taken as a path, unless there is an option in front of it that does not exist. -/
theorem Command.parse_mixture :
    (∀ (items : List Item) (cmd : Command),
      Command.parse (items.flatMap Item.words) = .ok cmd ↔
        ∃ e params, Names (positionals items) e params ∧
          cmd = .call ⟨lastPath items, e, params⟩) ∧
    (∀ items : List Item,
      (∃ u, Command.parse (items.flatMap Item.words) = .error u) ↔
        ¬ ∃ e params, Names (positionals items) e params) ∧
    (∀ items items' : List Item, lastPath items = lastPath items' →
      positionals items = positionals items' →
        Command.parse (items.flatMap Item.words) = Command.parse (items'.flatMap Item.words)) ∧
    ∀ (args : List String) (i : ℕ), args[i]? = some "-h" ∨ args[i]? = some "--help" →
      ¬ IsPath args i →
      (∀ j < i, ¬ IsPath args j → ∀ arg, args[j]? = some arg → ¬ IsUnknown arg) →
        Command.parse args = .ok .help := by
  refine ⟨parse_words_eq_ok_iff, parse_words_eq_error_iff, ?_, ?_⟩
  · intro items items' hpath hpositionals
    rw [parse_words, parse_words, hpath, hpositionals]
  · intro args i hwish hpath hknown
    rw [Command.parse, gather_of_wish i none args ⟨hwish, hpath, hknown⟩]
    rfl

/-- Paths that look like options, and options that look like paths. -/
theorem Command.parse_disguised :
    Command.parse ["-c", "--help", "users", "--config=-h", "--config", "-c", "\x7b\x7d"]
        = .ok (.call ⟨some "-c", "users", some []⟩) ∧
      Command.parse ["--config", "--verbose", "-", "--help", "--verbose"] = .ok .help := by
  obtain ⟨hcall, -, -, hhelp⟩ := Command.parse_mixture
  constructor
  · have hwords : ["-c", "--help", "users", "--config=-h", "--config", "-c", "\x7b\x7d"]
        = [Item.catalog .short "--help", .positional "users" (by decide), .catalog .joined "-h",
            .catalog .long "-c", .positional "\x7b\x7d" (by decide)].flatMap Item.words := by
      decide
    rw [hwords, hcall]
    exact ⟨"users", some [], .params _ _ _ (by rfl), rfl⟩
  · have htaken : IsPath ["--config", "--verbose", "-", "--help", "--verbose"] 1 := by
      simp [IsPath]
    refine hhelp _ 3 (Or.inr rfl) (by simp [IsPath]) ?_
    intro j hj hpath arg harg hunknown
    match j, hj with
    | 0, _ =>
      cases harg
      exact hunknown.2.1 (by decide)
    | 1, _ => exact hpath htaken
    | 2, _ =>
      cases harg
      exact hunknown.1 (by decide)

end Switchboard.CommandLine
