import KernelExperiments.Foundation.ModuleLifecycle

/-!
# Loading the proc module

`exp3.1.c`: `initexp3_1` makes the directory `/proc/hello` and the file `world` in it, and
`exitexp3_1` removes both. `proc_mkdir` and `proc_create` return `NULL` when they fail, and fail
when the entry is there already.
-/

set_option autoImplicit false
set_option relaxedAutoImplicit false

namespace KernelExperiments.ProcMessage

open Foundation

/-- The entries of `/proc` that the module makes, each by whether it is there: the directory
`hello`, and the file `world` in it. -/
structure ProcEntries where
  hello : Bool
  world : Bool
  deriving DecidableEq

/-- Whether the kernel calls of `initexp3_1` succeed, when nothing is in their way. -/
structure Exp31Calls where
  procMkdir : Bool
  procCreate : Bool

/-- The static pointers of the module, each by whether it is not `NULL`. -/
structure Exp31Statics where
  procMkdirSuccess : Bool
  procCreateSuccess : Bool

/-- `-ENOMEM`. -/
def enomem : ℤ := -12

/-- `proc_mkdir(PROC_DIR, NULL)`, and whether its result is not `NULL`. -/
def procMkdir (entries : ProcEntries) (succeeds : Bool) : Bool × ProcEntries :=
  if succeeds && !entries.hello then (true, { entries with hello := true }) else (false, entries)

/-- `proc_create(PROC_FILE, 0666, proc_mkdir_success, &proc_fops)`. -/
def procCreate (entries : ProcEntries) (succeeds : Bool) : Bool × ProcEntries :=
  if succeeds && !entries.world then (true, { entries with world := true }) else (false, entries)

/-- `initexp3_1`. When `proc_create` fails the directory is left. -/
def initexp31 (entries : ProcEntries) (calls : Exp31Calls) :
    InitOutcome ProcEntries Exp31Statics :=
  let (procMkdirSuccess, entries) := procMkdir entries calls.procMkdir
  if !procMkdirSuccess then ⟨enomem, ⟨procMkdirSuccess, false⟩, entries⟩
  else
    let (procCreateSuccess, entries) := procCreate entries calls.procCreate
    if !procCreateSuccess then ⟨enomem, ⟨procMkdirSuccess, procCreateSuccess⟩, entries⟩
    else ⟨0, ⟨procMkdirSuccess, procCreateSuccess⟩, entries⟩

/-- `exitexp3_1`: `remove_proc_entry` of the file in its directory, and of the directory. -/
def exitexp31 (entries : ProcEntries) (statics : Exp31Statics) :
    ExitOutcome ProcEntries Exp31Statics :=
  let entries := if statics.procMkdirSuccess then { entries with world := false } else entries
  ⟨statics, { entries with hello := false }⟩

end KernelExperiments.ProcMessage
