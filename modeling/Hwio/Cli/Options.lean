import Hwio.Wire

/-!
Contract: the command line options of `hwio_cli.cpp` and their parsing by
`getopt_long`.

Owns the option table, the options that are found in the words of a command
line, and where their arguments are.

Does not own what is done for an option.
-/

namespace Hwio

open Library

/-- The values of the options, which are characters in the table. -/
inductive CliOption where
  | config
  | devicetree
  | deviceMem
  | remote
  | json
deriving DecidableEq, Repr

/-- `long_opts`, all of them with `required_argument`. -/
def longOpts : List (Text × CliOption) :=
  [(text "hwio_config", .config), (text "hwio_devicetree", .devicetree),
    (text "hwio_device_mem", .deviceMem), (text "hwio_remote", .remote), (text "hwio_json", .json)]

def dash : Byte := 45
def equalSign : Byte := 61

/-- A pointer into a word of the command line. -/
structure WordPtr where
  word : Nat
  offset : Nat
deriving DecidableEq, Repr

/-- What a call of `getopt_long` returns: an option with its `optarg`, or `?`. -/
inductive Parsed where
  | option (opt : CliOption) (optarg : WordPtr)
  | unknown
deriving DecidableEq, Repr

/-- The option with a name, or the only one whose name starts so. -/
def findOption (name : Text) : Option CliOption :=
  match longOpts.find? (·.1 = name) with
  | some entry => some entry.2
  | none =>
    match longOpts.filter (name.isPrefixOf ·.1) with
    | [entry] => some entry.2
    | _ => none

/-- What `getopt_long` takes a word for. -/
inductive WordKind where
  /-- the end of the options -/
  | terminator
  /-- an option with its argument from a place of the word on -/
  | attached (opt : CliOption) (offset : Nat)
  /-- an option whose argument is the next word -/
  | separate (opt : CliOption)
  /-- options that are not known -/
  | unknown (count : Nat)
  | other
deriving DecidableEq, Repr

def wordKind (word : Text) : WordKind :=
  if word = [dash, dash] then .terminator
  else if [dash, dash].isPrefixOf word then
    let name := (word.drop 2).takeWhile (· ≠ equalSign)
    match findOption name with
    | none => .unknown 1
    | some opt => if equalSign ∈ word then .attached opt (2 + name.length + 1) else .separate opt
  -- there are no short options, so that each of the characters is unknown
  else if word.head? = some dash ∧ 1 < word.length then .unknown (word.length - 1)
  else .other

/-- The results of `getopt_long` from word number `index` on, where `pending` is
an option that waits for its argument.  Words that are no options are passed
over, unless `POSIXLY_CORRECT` is set; that `getopt_long` moves them behind the
others changes no later result. -/
def getoptLoop (posixlyCorrect : Bool) : Option CliOption → Nat → List Text → List Parsed
  | none, _, [] => []
  | some _, _, [] => [.unknown]
  | some opt, index, _ :: rest => .option opt ⟨index, 0⟩ :: getoptLoop posixlyCorrect none (index + 1) rest
  | none, index, word :: rest =>
      match wordKind word with
      | .terminator => []
      | .attached opt offset =>
          .option opt ⟨index, offset⟩ :: getoptLoop posixlyCorrect none (index + 1) rest
      | .separate opt => getoptLoop posixlyCorrect (some opt) (index + 1) rest
      | .unknown count =>
          List.replicate count .unknown ++ getoptLoop posixlyCorrect none (index + 1) rest
      | .other => if posixlyCorrect then [] else getoptLoop posixlyCorrect none (index + 1) rest

/-- The results of the calls of `getopt_long` before it returns -1. -/
def getoptLong (posixlyCorrect : Bool) (argv : List Text) : List Parsed :=
  getoptLoop posixlyCorrect none 1 (argv.drop 1)

/-- The text behind a pointer. -/
def WordPtr.text (ptr : WordPtr) (words : List Text) : Text :=
  (words.getD ptr.word []).drop ptr.offset

/-- Arguments are in the words that are parsed. -/
theorem getoptLoop_inside {posixlyCorrect : Bool} {pending : Option CliOption} {index : Nat}
    {words : List Text} {opt : CliOption} {optarg : WordPtr}
    (parsed : .option opt optarg ∈ getoptLoop posixlyCorrect pending index words) :
    index ≤ optarg.word ∧ optarg.word < index + words.length := by
  induction words generalizing pending index with
  | nil =>
      cases pending with
      | none => cases parsed
      | some waiting => cases List.mem_singleton.mp parsed
  | cons word rest inductionHypothesis =>
      have later : ∀ pending, .option opt optarg ∈
          getoptLoop posixlyCorrect pending (index + 1) rest →
          index ≤ optarg.word ∧ optarg.word < index + (word :: rest).length := by
        intro pending member
        have inside := inductionHypothesis member
        rw [List.length_cons]
        omega
      have here : ∀ {kind : CliOption} {offset : Nat} {results : List Parsed},
          .option opt optarg ∈ .option kind ⟨index, offset⟩ :: results →
            (.option opt optarg ∈ results →
              index ≤ optarg.word ∧ optarg.word < index + (word :: rest).length) →
            index ≤ optarg.word ∧ optarg.word < index + (word :: rest).length := by
        intro kind offset results member behind
        rcases List.mem_cons.mp member with same | member
        · obtain ⟨_, rfl⟩ := Parsed.option.inj same
          exact ⟨Nat.le_refl _, Nat.lt_add_of_pos_right (Nat.succ_pos _)⟩
        · exact behind member
      cases pending with
      | some waiting => exact here parsed (later none)
      | none =>
          rw [getoptLoop] at parsed
          split at parsed
          · cases parsed
          · exact here parsed (later none)
          · exact later _ parsed
          · rcases List.mem_append.mp parsed with member | member
            · cases List.eq_of_mem_replicate member
            · exact later none member
          · split at parsed
            · cases parsed
            · exact later none parsed

theorem getoptLong_inside {posixlyCorrect : Bool} {argv : List Text} {opt : CliOption}
    {optarg : WordPtr} (parsed : .option opt optarg ∈ getoptLong posixlyCorrect argv) :
    optarg.word < argv.length := by
  have inside := getoptLoop_inside parsed
  rw [List.length_drop] at inside
  omega

end Hwio
