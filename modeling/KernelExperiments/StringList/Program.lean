import KernelExperiments.Foundation.LinkedNodes
import KernelExperiments.Foundation.TokenStream
import KernelExperiments.Foundation.WhileLoops

/-!
# The string list of `exp2.3.cpp`

`main` reads tokens from `cin` into a chain of nodes behind `head` until it has read `114514`, puts
`NULL` behind the node that it would have filled next, and prints the strings of the chain up to
that node. The two loops are partial functions on the variables of `main`.

## Scope

Both `malloc`s succeed. The data field of a new node is taken as a field that can be assigned to,
although no constructor of `string` has run for it; a read of it before the first assignment is a
fault. `cin` fails at the end of its input only, and an extraction that finds no token leaves the
variable as it is.
-/

set_option autoImplicit false
set_option relaxedAutoImplicit false

namespace KernelExperiments.StringList

open Foundation

/-- The white space of `cin >> temp`: the blank and the chars from `\t` to `\r`. -/
def isSpace (char : UInt8) : Bool := char == 32 || (9 ≤ char && char ≤ 13)

/-- The chars of a literal. -/
def literal (text : String) : List UInt8 := text.toList.map fun char ↦ char.toNat.toUInt8

/-- The token at which `main` stops to read. -/
def exitToken : List UInt8 := literal "114514"

/-- The line that `main` prints first. -/
def prompt : List UInt8 := literal "Please input your string. Input 114514 to exit."

/-- The variables of `main` while it reads, and the lines printed. -/
structure ReadState where
  cin : TokenStream UInt8
  temp : List UInt8
  memory : Memory (List UInt8)
  head : Option ℕ
  scanner : Option ℕ
  cout : List (List UInt8)

/-- The state in which the input loop is entered. -/
def readEntry (input : List UInt8) : ReadState :=
  let (memory, head) := Memory.malloc ⟨[], []⟩
  let (memory, node) := memory.malloc
  let memory := memory.writeNext head node
  let (memory, scanner) := memory.readNext head
  { cin := ⟨input, true⟩, temp := [], memory, head, scanner, cout := [prompt] }

/-- An iteration of the input loop. The loop is left by `break`, after the extraction; the stream
and `temp` are not used behind it. -/
def readBody (state : ReadState) : Option ReadState :=
  let (cin, temp) := state.cin.extract isSpace state.temp
  if temp = exitToken then none
  else
    let memory := state.memory.writeData state.scanner temp
    let (memory, node) := memory.malloc
    let memory := memory.writeNext state.scanner node
    let (memory, scanner) := memory.readNext state.scanner
    some { state with cin, temp, memory, scanner }

/-- The variables of `main` while it prints, with the value of `scanner->next` that the guard has
read, and the lines printed. -/
structure PrintState where
  memory : Memory (List UInt8)
  head : Option ℕ
  scanner : Option ℕ
  test : Option ℕ
  cout : List (List UInt8)

/-- The state in which the guard of the print loop has been read for the first time. -/
def printEntry (read : ReadState) : PrintState :=
  let memory := read.memory.writeNext read.scanner none
  let (memory, scanner) := memory.readNext read.head
  let (memory, test) := memory.readNext scanner
  { memory, head := read.head, scanner, test, cout := read.cout }

/-- An iteration of the print loop. -/
def printBody (state : PrintState) : Option PrintState :=
  match state.test with
  | none => none
  | some _ =>
    let (memory, line) := state.memory.readData state.scanner
    let (memory, scanner) := memory.readNext state.scanner
    let (memory, test) := memory.readNext scanner
    some { state with memory, scanner, test, cout := state.cout ++ [line] }

end KernelExperiments.StringList
