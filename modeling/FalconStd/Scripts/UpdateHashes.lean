import Mathlib.Data.List.DropRight
import Mathlib.Data.List.Infix
import FalconStd.Foundation.Lines
import FalconStd.Foundation.Run

/-! The hashes of `falcon.yml` (`scripts/update_hashes.py`).

`update_manifest` reads the lines of a manifest, keeps the entries of its `ffi:` section
up to date with a state machine and writes the file again. A text is its characters;
reading translates line ends as Python's text mode does. What is in `build/`, and the
hash of a file there, is a parameter, `Build`. -/
namespace FalconStd.Scripts
open Foundation

abbrev Text := List Char

/-- A literal of the source. -/
def text (s : String) : Text := s.toList

/-! ### Strings of Python -/

/-- The characters that `strip` removes. -/
def isspace (c : Char) : Bool :=
  (0x09 ≤ c.toNat && c.toNat ≤ 0x0D) || (0x1C ≤ c.toNat && c.toNat ≤ 0x20) ||
    c.toNat == 0x85 || c.toNat == 0xA0 || c.toNat == 0x1680 ||
    (0x2000 ≤ c.toNat && c.toNat ≤ 0x200A) || c.toNat == 0x2028 || c.toNat == 0x2029 ||
    c.toNat == 0x202F || c.toNat == 0x205F || c.toNat == 0x3000

def lstrip (s : Text) : Text := s.dropWhile isspace

def rstrip (s : Text) : Text := s.rdropWhile isspace

def strip (s : Text) : Text := rstrip (lstrip s)

/-- What follows the last slash. -/
def basename (path : Text) : Text := path.rtakeWhile (· != '/')

/-- The line ends of a file that is read as text. -/
def newlines : Text → Text
  | [] => []
  | '\r' :: '\n' :: s => '\n' :: newlines s
  | '\r' :: s => '\n' :: newlines s
  | c :: s => c :: newlines s

/-- `readlines` of a file with this content. -/
def readlines (content : Text) : List Text := lines '\n' (newlines content)

/-! ### The directory -/

def isHex (c : Char) : Bool := ('0' ≤ c && c ≤ '9') || ('a' ≤ c && c ≤ 'f')

/-- The directory `build`: its names in the order of `os.listdir`, and what `sha256_file`
returns for a path, which is empty where the file cannot be read. -/
structure Build where
  listdir : List Text
  distinct : listdir.Nodup
  no_slash : ∀ f ∈ listdir, '/' ∉ f
  sha256_file : Text → Text
  hex : ∀ path, ∀ c ∈ sha256_file path, isHex c = true

structure Directory where
  falcon_yml : Option Text
  build : Option Build

namespace Build
variable (b : Build)

def so_files : List Text := (b.listdir.filter fun f => text ".so" <:+ f).map (text "build/" ++ ·)

def hash_val (so : Text) : Text := text "sha256:" ++ b.sha256_file so

/-- The line of a file, as it is written. -/
def entry (so : Text) : Text := text "  " ++ so ++ text ": " ++ b.hash_val so ++ text "\n"

/-- The first file that the line names. -/
def found_so (stripped : Text) : Option Text :=
  b.so_files.find? fun so => basename so <:+: stripped ∨ so <:+: stripped

end Build

/-! ### The state machine -/

/-- `processed_so` is a set. -/
structure State where
  new_lines : List Text
  in_ffi : Bool
  processed_so : List Text

/-- An empty line, or a key that is not a path of `build`. -/
def endsSection (stripped : Text) : Bool :=
  stripped = [] ∨ (':' ∈ stripped ∧ ¬ text "-" <+: stripped ∧ ¬ text "build/" <+: stripped)

namespace Build
variable (b : Build)

/-- One pass of the loop that adds the missing files. -/
def addMissing (st : State) (so : Text) : State :=
  if so ∈ st.processed_so then st
  else
    { st with
      new_lines := st.new_lines ++ [b.entry so]
      processed_so := so :: st.processed_so }

def step (st : State) (line : Text) : State :=
  let stripped := strip line
  if text "ffi:" <+: stripped then
    { st with in_ffi := true, new_lines := st.new_lines ++ [line] }
  else if st.in_ffi then
    match b.found_so stripped with
    | some so =>
      { st with
        new_lines := st.new_lines ++ [b.entry so]
        processed_so := so :: st.processed_so }
    | none =>
      if endsSection stripped then
        let st' := run b.addMissing { st with in_ffi := false } b.so_files
        { st' with new_lines := st'.new_lines ++ [line] }
      else { st with new_lines := st.new_lines ++ [line] }
  else { st with new_lines := st.new_lines ++ [line] }

/-- The lines that are written for these lines. -/
def updated (ls : List Text) : List Text :=
  let st := run b.step ⟨[], false, []⟩ ls
  if st.processed_so = [] then
    st.new_lines ++ text "\nffi:\n" :: b.so_files.map b.entry
  else st.new_lines

end Build

/-- What is written to `falcon.yml`, if anything is. -/
def update_manifest (directory : Directory) : Option Text :=
  match directory.falcon_yml with
  | none => none
  | some content =>
    match directory.build with
    | none => none
    | some b => if b.so_files = [] then none else some (b.updated (readlines content)).flatten

/-- The directory once `update_manifest` has run. -/
def Directory.afterUpdate (directory : Directory) : Directory :=
  { directory with falcon_yml := (update_manifest directory).or directory.falcon_yml }

end FalconStd.Scripts
