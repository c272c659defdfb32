import Mathlib.Tactic.SplitIfs
import SceneScript.CommandLine

/-!
# The phrases of a command line

A command line is a row of phrases: flags that ask for help, and options with their values
(`Spells`). What stands in the place of a value is one, whatever it looks like. A command line is
read exactly if it is such a row, and then each option has the value of its last phrase. A longer
command line says what its end says, and what its beginning says of the options that the end does
not set (`Invocation.after`). All other command lines are refused because of the first argument that
starts no phrase (`Complains`).
-/

namespace SceneScript

/-! ## Phrases -/

/-- A flag that asks for help, or an option with its value. -/
inductive Phrase where
  | help
  | setting (name : OptionName) (value : String)
  deriving DecidableEq, Repr

/-- The value that a phrase gives an option. -/
def Phrase.value? (name : OptionName) : Phrase → Option String
  | .help => none
  | .setting other value => if other = name then some value else none

/-- The flags that ask for help. -/
def helpFlags : List String :=
  ["-h", "--help"]

/-- The ways to write an option. -/
def OptionName.spellings : OptionName → List String
  | .input => ["-i", "--input"]
  | .output => ["-o", "--output"]
  | .base => ["--base-dir"]

/-- Phrases written one after the other. -/
inductive Spells : List Phrase → List String → Prop
  | nil : Spells [] []
  | help {flag : String} {phrases : List Phrase} {args : List String} (hflag : flag ∈ helpFlags)
    (hrest : Spells phrases args) : Spells (.help :: phrases) (flag :: args)
  | setting {name : OptionName} {option : String} (value : String) {phrases : List Phrase}
    {args : List String} (hoption : option ∈ name.spellings) (hrest : Spells phrases args) :
    Spells (.setting name value :: phrases) (option :: value :: args)

/-- An argument starts no phrase before others, and a message says so: it is none of the words that
may start one, or it is an option and the last argument. -/
inductive Complains : String → List String → String → Prop
  | unknown {word : String} {rest : List String} (hhelp : word ∉ helpFlags)
    (hoption : ∀ name : OptionName, word ∉ name.spellings) :
    Complains word rest ("unknown argument: " ++ word ++ "\n" ++ usage)
  | dangling {word : String} {name : OptionName} (hoption : word ∈ name.spellings) :
    Complains word [] ("missing value for " ++ name.text)

namespace Word

theorem ofText_of_mem_helpFlags {text : String} (h : text ∈ helpFlags) : ofText text = .help := by
  simp only [helpFlags, List.mem_cons, List.not_mem_nil, or_false] at h
  rcases h with rfl | rfl <;> decide

theorem ofText_of_mem_spellings {text : String} {name : OptionName} (h : text ∈ name.spellings) :
    ofText text = .option name := by
  cases name with
  | input =>
    simp only [OptionName.spellings, List.mem_cons, List.not_mem_nil, or_false] at h
    rcases h with rfl | rfl <;> decide
  | output =>
    simp only [OptionName.spellings, List.mem_cons, List.not_mem_nil, or_false] at h
    rcases h with rfl | rfl <;> decide
  | base =>
    obtain rfl := List.mem_singleton.1 h
    decide

theorem mem_helpFlags_of_ofText {text : String} (h : ofText text = .help) : text ∈ helpFlags := by
  unfold ofText at h
  split_ifs at h with hhelp
  simpa [helpFlags, or_comm] using hhelp

theorem mem_spellings_of_ofText {text : String} {name : OptionName}
    (h : ofText text = .option name) : text ∈ name.spellings := by
  unfold ofText at h
  split_ifs at h with hhelp hinput houtput hbase <;> cases h
  · simpa [OptionName.spellings, or_comm] using hinput
  · simpa [OptionName.spellings, or_comm] using houtput
  · simpa [OptionName.spellings] using hbase

theorem eq_of_ofText_unknown {text other : String} (h : ofText text = .unknown other) :
    other = text := by
  unfold ofText at h
  split_ifs at h
  cases h
  rfl

theorem ofText_unknown_iff {text : String} :
    ofText text = .unknown text ↔
      text ∉ helpFlags ∧ ∀ name : OptionName, text ∉ name.spellings := by
  constructor
  · intro h
    refine ⟨fun hhelp => ?_, fun name hoption => ?_⟩
    · cases h.symm.trans (ofText_of_mem_helpFlags hhelp)
    · cases h.symm.trans (ofText_of_mem_spellings hoption)
  · rintro ⟨hhelp, hoption⟩
    cases hword : ofText text with
    | help => exact absurd (mem_helpFlags_of_ofText hword) hhelp
    | option name => exact absurd (mem_spellings_of_ofText hword) (hoption name)
    | unknown other => rw [eq_of_ofText_unknown hword]

end Word

namespace Invocation

variable {i j : Invocation} {args xs ys : List String}

/-! ## What phrases say -/

/-- The value of an option. -/
def get (i : Invocation) : OptionName → Option Path
  | .input => i.input
  | .output => i.output
  | .base => i.base

/-- Takes in a phrase. -/
def add (i : Invocation) : Phrase → Invocation
  | .help => { i with help := true }
  | .setting name value => i.set name ⟨value⟩

theorem get_add (i : Invocation) (phrase : Phrase) (name : OptionName) :
    (i.add phrase).get name = ((phrase.value? name).map Path.mk).or (i.get name) := by
  cases phrase with
  | help => cases name <;> rfl
  | setting other value => cases other <;> cases name <;> rfl

/-- The last phrase with an option decides. -/
theorem get_foldl_add (phrases : List Phrase) (i : Invocation) (name : OptionName) :
    (phrases.foldl add i).get name =
      ((phrases.filterMap (Phrase.value? name)).getLast?.map Path.mk).or (i.get name) := by
  induction phrases generalizing i with
  | nil => rfl
  | cons phrase phrases ih =>
    rw [List.foldl_cons, ih, get_add, ← Option.or_assoc]
    cases hvalue : phrase.value? name with
    | none => rw [List.filterMap_cons_none hvalue, Option.map_none, Option.or_none]
    | some value =>
      rw [List.filterMap_cons_some hvalue, List.getLast?_cons]
      cases (phrases.filterMap (Phrase.value? name)).getLast? <;> rfl

theorem help_foldl_add (phrases : List Phrase) (i : Invocation) :
    (phrases.foldl add i).help = true ↔ i.help = true ∨ Phrase.help ∈ phrases := by
  induction phrases generalizing i with
  | nil => simp
  | cons phrase phrases ih =>
    rw [List.foldl_cons, ih, List.mem_cons]
    cases phrase with
    | help => simp [add]
    | setting name value => cases name <;> simp [add, set]

theorem readFrom_help {flag : String} (h : flag ∈ helpFlags) (i : Invocation)
    (rest : List String) : readFrom i (flag :: rest) = readFrom (i.add .help) rest := by
  rw [readFrom, Word.ofText_of_mem_helpFlags h]
  rfl

theorem readFrom_setting {option : String} {name : OptionName} (h : option ∈ name.spellings)
    (i : Invocation) (value : String) (rest : List String) :
    readFrom i (option :: value :: rest) = readFrom (i.add (.setting name value)) rest := by
  rw [readFrom, Word.ofText_of_mem_spellings h]
  rfl

/-- Phrases are taken in from left to right, and then what follows them. -/
theorem readFrom_append {phrases : List Phrase} (h : Spells phrases xs) (i : Invocation)
    (ys : List String) : readFrom i (xs ++ ys) = readFrom (phrases.foldl add i) ys := by
  induction h generalizing i with
  | nil => rfl
  | help hflag _ ih => rw [List.cons_append, readFrom_help hflag, ih, List.foldl_cons]
  | setting value hoption _ ih =>
    rw [List.cons_append, List.cons_append, readFrom_setting hoption, ih, List.foldl_cons]

theorem readFrom_of_spells {phrases : List Phrase} (h : Spells phrases args) (i : Invocation) :
    readFrom i args = .ok (phrases.foldl add i) := by
  have happend := readFrom_append h i []
  rwa [List.append_nil, readFrom] at happend

/-- What is read is made of phrases. -/
theorem exists_spells (h : readFrom i args = .ok j) : ∃ phrases, Spells phrases args := by
  fun_induction readFrom i args with
  | case1 => exact ⟨[], .nil⟩
  | case2 i word rest hword ih =>
    obtain ⟨phrases, hphrases⟩ := ih h
    exact ⟨_, .help (Word.mem_helpFlags_of_ofText hword) hphrases⟩
  | case3 => cases h
  | case4 => cases h
  | case5 i word name hword value rest ih =>
    obtain ⟨phrases, hphrases⟩ := ih h
    exact ⟨_, .setting value (Word.mem_spellings_of_ofText hword) hphrases⟩

/-! ## One command line behind another -/

/-- What a command line says behind another one: an option that it does not set keeps the value that
it has there. -/
def after (j i : Invocation) : Invocation :=
  ⟨j.input.or i.input, j.output.or i.output, j.base.or i.base, j.help || i.help⟩

theorem set_after (j i : Invocation) (name : OptionName) (value : Path) :
    (j.after i).set name value = (j.set name value).after i := by
  cases name <;> rfl

/-- What was read before fills in what the arguments leave open. -/
theorem readFrom_after (j i : Invocation) (args : List String) :
    readFrom (j.after i) args = (readFrom j args).map (·.after i) := by
  fun_induction readFrom j args with
  | case1 => rfl
  | case2 j word rest hword ih =>
    rw [readFrom, hword]
    exact ih
  | case3 j word rest text hword =>
    rw [readFrom, hword]
    rfl
  | case4 j word name hword =>
    rw [readFrom, hword]
    rfl
  | case5 j word name hword value rest ih =>
    rw [readFrom, hword]
    show readFrom ((j.after i).set name ⟨value⟩) rest = _
    rw [set_after, ih]

theorem readFrom_eq_map (i : Invocation) (args : List String) :
    readFrom i args = (read args).map (·.after i) :=
  readFrom_after empty i args

/-- Behind a command line that is read, another one is read as it would be alone. -/
theorem read_append (h : read xs = .ok i) (ys : List String) :
    read (xs ++ ys) = (read ys).map (·.after i) := by
  obtain ⟨phrases, hphrases⟩ := exists_spells h
  rw [read, readFrom_of_spells hphrases] at h
  cases h
  rw [read, readFrom_append hphrases, readFrom_eq_map]

/-! ## What is refused -/

/-- An argument that starts no phrase is refused with its message. -/
theorem readFrom_of_complains {word message : String} {rest : List String}
    (h : Complains word rest message) (i : Invocation) :
    ∃ e, readFrom i (word :: rest) = .error e ∧ e.message = message := by
  cases h with
  | unknown hhelp hoption =>
    refine ⟨.unknownArgument word, ?_, rfl⟩
    rw [readFrom, Word.ofText_unknown_iff.2 ⟨hhelp, hoption⟩]
  | dangling hoption =>
    refine ⟨.missingValue _, ?_, rfl⟩
    rw [readFrom, Word.ofText_of_mem_spellings hoption]

/-- What is refused holds an argument, behind phrases, that starts none. -/
theorem exists_complains {e : UsageError} (h : readFrom i args = .error e) :
    ∃ front word rest, args = front ++ word :: rest ∧ (∃ phrases, Spells phrases front) ∧
      Complains word rest e.message := by
  fun_induction readFrom i args with
  | case1 => cases h
  | case2 i word rest hword ih =>
    obtain ⟨front, other, last, rfl, ⟨phrases, hphrases⟩, hother⟩ := ih h
    exact ⟨word :: front, other, last, rfl,
      ⟨_, .help (Word.mem_helpFlags_of_ofText hword) hphrases⟩, hother⟩
  | case3 i word rest text hword =>
    cases h
    obtain rfl := Word.eq_of_ofText_unknown hword
    obtain ⟨hhelp, hoption⟩ := Word.ofText_unknown_iff.1 hword
    exact ⟨[], text, rest, rfl, ⟨[], .nil⟩, .unknown hhelp hoption⟩
  | case4 i word name hword =>
    cases h
    exact ⟨[], word, [], rfl, ⟨[], .nil⟩, .dangling (Word.mem_spellings_of_ofText hword)⟩
  | case5 i word name hword value rest ih =>
    obtain ⟨front, other, last, rfl, ⟨phrases, hphrases⟩, hother⟩ := ih h
    exact ⟨word :: value :: front, other, last, rfl,
      ⟨_, .setting value (Word.mem_spellings_of_ofText hword) hphrases⟩, hother⟩

/-- Between phrases no argument that could start one fails to. -/
theorem not_complains_of_spells {front more rest : List String} {word last message : String}
    {phrases all : List Phrase} (hfront : Spells phrases front)
    (hall : Spells all (front ++ word :: more)) : ¬ Complains word (more ++ last :: rest) message := by
  intro hword
  have hread := readFrom_of_spells hall empty
  rw [readFrom_append hfront] at hread
  generalize hmore : more ++ last :: rest = behind at hword
  cases hword with
  | unknown hhelp hoption =>
    rw [readFrom, Word.ofText_unknown_iff.2 ⟨hhelp, hoption⟩] at hread
    cases hread
  | dangling => exact List.append_ne_nil_of_right_ne_nil more (List.cons_ne_nil _ _) hmore

/-- Of two parts before an argument the shorter one is the beginning of the longer one. -/
theorem exists_between {front front' rest rest' : List String} {word word' : String}
    (h : front ++ word :: rest = front' ++ word' :: rest')
    (hlength : front'.length < front.length) :
    ∃ more, front = front' ++ word' :: more ∧ rest' = more ++ word :: rest := by
  obtain ⟨more, hfront, hrest⟩ | ⟨more, hfront, hrest⟩ := List.append_eq_append_iff.1 h
  · rw [hfront, List.length_append] at hlength
    omega
  · cases more with
    | nil =>
      rw [hfront, List.append_nil] at hlength
      exact absurd hlength (Nat.lt_irrefl _)
    | cons first more =>
      obtain ⟨rfl, htail⟩ := List.cons.inj hrest
      exact ⟨more, hfront, htail⟩

/-- A command line is read exactly if it is a row of flags and of options with their values.

* Help is asked for exactly if a flag for it stands among them, and each option has the value of its
  last phrase.
* Behind a command line that is read, another one means what it means alone, with the options that
  it does not set as they were before it, and it is refused as it is refused alone.
* A refusal names the first argument that stands in the place of a flag or an option and is neither,
  or is an option without a value. -/
theorem arguments_are_phrases :
    (∀ args, (∃ i, read args = .ok i) ↔ ∃ phrases, Spells phrases args) ∧
    (∀ args phrases, Spells phrases args → ∃ i, read args = .ok i ∧
      (i.help = true ↔ Phrase.help ∈ phrases) ∧
      ∀ name, i.get name = (phrases.filterMap (Phrase.value? name)).getLast?.map Path.mk) ∧
    (∀ xs ys i, read xs = .ok i →
      (∀ j, read ys = .ok j → read (xs ++ ys) =
        .ok ⟨j.input.or i.input, j.output.or i.output, j.base.or i.base, j.help || i.help⟩) ∧
      ∀ e, read ys = .error e → read (xs ++ ys) = .error e) ∧
    ∀ args message, (∃ e, read args = .error e ∧ e.message = message) ↔
      ∃ front word rest, args = front ++ word :: rest ∧ (∃ phrases, Spells phrases front) ∧
        Complains word rest message ∧
        ∀ front' word' rest', args = front' ++ word' :: rest' → front'.length < front.length →
          (∃ phrases, Spells phrases front') → ∀ message', ¬ Complains word' rest' message' := by
  refine ⟨fun args => ⟨?_, ?_⟩, fun args phrases hphrases => ?_, fun xs ys i hread => ⟨?_, ?_⟩,
    fun args message => ⟨?_, ?_⟩⟩
  · rintro ⟨i, hread⟩
    exact exists_spells hread
  · rintro ⟨phrases, hphrases⟩
    exact ⟨_, readFrom_of_spells hphrases empty⟩
  · refine ⟨_, readFrom_of_spells hphrases empty, ?_, fun name => ?_⟩
    · rw [help_foldl_add]
      simp [empty]
    · rw [get_foldl_add]
      cases name <;> exact Option.or_none
  · intro j hj
    rw [read_append hread, hj]
    rfl
  · intro e he
    rw [read_append hread, he]
    rfl
  · rintro ⟨e, he, rfl⟩
    obtain ⟨front, word, rest, rfl, ⟨phrases, hphrases⟩, hword⟩ := exists_complains he
    refine ⟨front, word, rest, rfl, ⟨phrases, hphrases⟩, hword, ?_⟩
    rintro front' word' rest' hargs hlength ⟨phrases', hphrases'⟩ message'
    obtain ⟨more, rfl, rfl⟩ := exists_between hargs hlength
    exact not_complains_of_spells hphrases' hphrases
  · rintro ⟨front, word, rest, rfl, ⟨phrases, hphrases⟩, hword, -⟩
    rw [read, readFrom_append hphrases]
    exact readFrom_of_complains hword _

-- behind an option any argument is its value
example : (read ["-i", "--help", "-o", "-i"]).toOption.map (fun i => (i.get .input, i.help)) =
    some (some ⟨"--help"⟩, false) := by decide +kernel

end Invocation

end SceneScript
