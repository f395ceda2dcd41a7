import KernelExperiments.Myfs.Access
import KernelExperiments.Myfs.Stream

/-!
# The four files and their one stream

`myfs_init` creates four files with the same operations. A run of open, write, read and release
calls on them, through any number of open files, is a run of `fileStep`. The kernel part of it is a
table of open files: it calls `read`, `write` and `release` for an open file only, and a file is
open when `myfs_file_open` returned zero for it.

A file is isolated when its reads return bytes written to it (`OwnBytes`) and are not changed by
writes to other files (`NoInfluence`). Neither holds: the operations do not look at the file, and
behind all of them is `mydemo_fifo` (`not_isolated`). What holds is the law of one stream that all
files share (`sharedStream`): the reads of all files together return what the writes of all files
together put in, in order, and it makes no difference which file a call is made on.

## Scope

The user copies succeed here; `StreamLaw` is about those that fault.
-/

set_option autoImplicit false
set_option relaxedAutoImplicit false

namespace KernelExperiments.Myfs

open Foundation

/-! ### Runs on the files -/

/-- The files that `myfs_init` creates. -/
inductive MyfsFile
  | firstOne
  | firstTwo
  | secondOne
  | secondTwo
  deriving DecidableEq

/-- An open file: which file it is, and its `struct file`. -/
structure OpenFile where
  file : MyfsFile
  record : File
  deriving DecidableEq

/-- The queue and the records of the module, and the open files of the kernel by handle. -/
structure FileSystem where
  mydemoFifo : Kfifo
  heap : Heap
  handles : ℕ → Option OpenFile

/-- The file system with no file open yet. -/
def FileSystem.loaded : FileSystem where
  mydemoFifo := Fifo.empty 64 0
  heap := fun _ ↦ none
  handles := fun _ ↦ none

/-- A system call on a file, by the handle of the open file. -/
inductive FileEvent
  | openFile (handle : ℕ) (file : MyfsFile) (call : OpenCall)
  | write (handle : ℕ) (data : List UInt8)
  | read (handle : ℕ) (count : ℕ)
  | release (handle : ℕ)

/-- What a system call returns, and the bytes in the user buffer of a read. -/
structure FileReply where
  ret : ℤ
  buffer : List UInt8
  deriving DecidableEq

/-- `-EBADF`, for a handle that is not open. -/
def ebadf : ℤ := -9

section

variable (inodePermission : Cred → Inode → BitVec 32 → ℤ) (inodes : MyfsFile → Inode)

/-- The file system after a system call. -/
def fileStep (state : FileSystem) : FileEvent → FileSystem
  | .openFile handle file call =>
    match state.handles handle with
    | some _ => state
    | none =>
      let result := myfsFileOpen inodePermission (inodes file) ⟨none⟩ state.heap call
      { state with
        heap := result.heap
        handles := if result.ret = 0 then
            Function.update state.handles handle (some ⟨file, result.file⟩)
          else state.handles }
  | .write handle data =>
    match state.handles handle with
    | none => state
    | some _ => { state with mydemoFifo := (myfsFileWrite state.mydemoFifo data none).fifo }
  | .read handle count =>
    match state.handles handle with
    | none => state
    | some _ => { state with mydemoFifo := (myfsFileRead state.mydemoFifo count none).fifo }
  | .release handle =>
    match state.handles handle with
    | none => state
    | some openFile =>
      { state with
        heap := (myfsFileRelease openFile.record state.heap).getD state.heap
        handles := Function.update state.handles handle none }

/-- What a system call returns. -/
def fileReply (state : FileSystem) : FileEvent → FileReply
  | .openFile handle file call =>
    match state.handles handle with
    | some _ => ⟨ebadf, []⟩
    | none => ⟨(myfsFileOpen inodePermission (inodes file) ⟨none⟩ state.heap call).ret, []⟩
  | .write handle data =>
    match state.handles handle with
    | none => ⟨ebadf, []⟩
    | some _ => ⟨(myfsFileWrite state.mydemoFifo data none).ret, []⟩
  | .read handle count =>
    match state.handles handle with
    | none => ⟨ebadf, []⟩
    | some _ =>
      let result := myfsFileRead state.mydemoFifo count none
      ⟨result.ret, result.buffer⟩
  | .release handle =>
    match state.handles handle with
    | none => ⟨ebadf, []⟩
    | some _ => ⟨0, []⟩

/-- The file that a system call is made on. -/
def FileEvent.target (state : FileSystem) : FileEvent → Option MyfsFile
  | .openFile _ file _ => some file
  | .write handle _ => (state.handles handle).map OpenFile.file
  | .read handle _ => (state.handles handle).map OpenFile.file
  | .release handle => (state.handles handle).map OpenFile.file

/-- The bytes that a write accepted. -/
def acceptedByFile (state : FileSystem) (event : FileEvent) : List UInt8 :=
  match event with
  | .write _ data => data.take (fileReply inodePermission inodes state event).ret.toNat
  | _ => []

/-- The bytes that a read returned. -/
def returnedByFile (state : FileSystem) (event : FileEvent) : List UInt8 :=
  match event with
  | .read _ _ =>
    let reply := fileReply inodePermission inodes state event
    reply.buffer.take reply.ret.toNat
  | _ => []

/-- What the calls of a run on one file put in or gave out. -/
def bytesOn (bytes : FileSystem → FileEvent → List UInt8) (file : MyfsFile)
    (events : List FileEvent) : List UInt8 :=
  (outputs (fileStep inodePermission inodes)
    (fun state event ↦ if event.target state = some file then bytes state event else [])
    FileSystem.loaded events).flatten

/-! ### Isolation -/

/-- Every byte that a read returned on a file was accepted by a write on that file. -/
def OwnBytes : Prop :=
  ∀ (events : List FileEvent) (file : MyfsFile),
    bytesOn inodePermission inodes (returnedByFile inodePermission inodes) file events ⊆
      bytesOn inodePermission inodes (acceptedByFile inodePermission inodes) file events

/-- A write to one file does not change what a later read of another file returns. -/
def NoInfluence : Prop :=
  ∀ (before after : List FileEvent) (writer reader : ℕ) (data : List UInt8) (count : ℕ)
    (file other : MyfsFile),
    file ≠ other →
      FileEvent.target (run (fileStep inodePermission inodes) FileSystem.loaded before)
          (.write writer data) = some file →
        FileEvent.target (run (fileStep inodePermission inodes) FileSystem.loaded
            (before ++ .write writer data :: after)) (.read reader count) = some other →
          fileReply inodePermission inodes (run (fileStep inodePermission inodes)
              FileSystem.loaded (before ++ .write writer data :: after)) (.read reader count) =
            fileReply inodePermission inodes (run (fileStep inodePermission inodes)
              FileSystem.loaded (before ++ after)) (.read reader count)

/-! ### The shared stream -/

/-- A write or a read made through any two open files returns the same and leaves the same file
system. -/
def CallsAlike (state : FileSystem) : Prop :=
  ∀ first second, state.handles first ≠ none → state.handles second ≠ none →
    (∀ data, fileStep inodePermission inodes state (.write first data) =
        fileStep inodePermission inodes state (.write second data) ∧
      fileReply inodePermission inodes state (.write first data) =
        fileReply inodePermission inodes state (.write second data)) ∧
    ∀ count, fileStep inodePermission inodes state (.read first count) =
        fileStep inodePermission inodes state (.read second count) ∧
      fileReply inodePermission inodes state (.read first count) =
        fileReply inodePermission inodes state (.read second count)

/-- The files share one stream in a run: the bytes that all reads returned, in order, and then those
still queued are the bytes that all writes accepted, in order; and for the next call it makes no
difference on which open file it is made. -/
structure SharedStream (events : List FileEvent) : Prop where
  conserved : (outputs (fileStep inodePermission inodes) (returnedByFile inodePermission inodes)
        FileSystem.loaded events).flatten ++
      (run (fileStep inodePermission inodes) FileSystem.loaded events).mydemoFifo.contents =
    (outputs (fileStep inodePermission inodes) (acceptedByFile inodePermission inodes)
      FileSystem.loaded events).flatten
  alike : CallsAlike inodePermission inodes
    (run (fileStep inodePermission inodes) FileSystem.loaded events)

/-- A system call takes in and gives out what it reports. -/
theorem returnedByFile_append_contents (state : FileSystem) (event : FileEvent) :
    returnedByFile inodePermission inodes state event ++
        (fileStep inodePermission inodes state event).mydemoFifo.contents =
      state.mydemoFifo.contents ++ acceptedByFile inodePermission inodes state event := by
  have hwhole : ∀ call : StreamCall, call.fault = none → ¬ call.CutShort state.mydemoFifo := by
    rintro call hnone ⟨position, hfault, -⟩
    rw [hnone] at hfault
    cases hfault
  cases event with
  | openFile handle file call =>
    cases hhandle : state.handles handle with
    | none => simp [returnedByFile, acceptedByFile, fileStep, hhandle]
    | some openFile => simp [returnedByFile, acceptedByFile, fileStep, hhandle]
  | write handle data =>
    cases hhandle : state.handles handle with
    | none => simp [returnedByFile, acceptedByFile, fileStep, fileReply, hhandle, ebadf]
    | some openFile =>
      simp only [returnedByFile, acceptedByFile, fileStep, fileReply, hhandle]
      exact deliveredBytes_append_contents (hwhole (.write data none) rfl)
  | read handle count =>
    cases hhandle : state.handles handle with
    | none => simp [returnedByFile, acceptedByFile, fileStep, fileReply, hhandle, ebadf]
    | some openFile =>
      simp only [returnedByFile, acceptedByFile, fileStep, fileReply, hhandle]
      exact deliveredBytes_append_contents (hwhole (.read count none) rfl)
  | release handle =>
    cases hhandle : state.handles handle with
    | none => simp [returnedByFile, acceptedByFile, fileStep, hhandle]
    | some openFile => simp [returnedByFile, acceptedByFile, fileStep, hhandle]

/-- In every run the files share one stream. -/
theorem sharedStream (events : List FileEvent) :
    SharedStream inodePermission inodes events := by
  refine ⟨?_, fun first second hfirst hsecond ↦ ?_⟩
  · exact outputs_conservation (fun state ↦ state.mydemoFifo.contents)
      (fun state event _ ↦ returnedByFile_append_contents inodePermission inodes state event)
      (along_of_forall (fun _ _ ↦ trivial) FileSystem.loaded events)
  · obtain ⟨openFirst, hopenFirst⟩ := Option.ne_none_iff_exists'.mp hfirst
    obtain ⟨openSecond, hopenSecond⟩ := Option.ne_none_iff_exists'.mp hsecond
    refine ⟨fun data ↦ ?_, fun count ↦ ?_⟩
    · simp only [fileStep, fileReply, hopenFirst, hopenSecond, and_self]
    · simp only [fileStep, fileReply, hopenFirst, hopenSecond, and_self]

end

/-! ### A write that is read from another file -/

/-- The inodes of the four files: `First/two` is made without `S_IWUSR`. -/
def initInodes : MyfsFile → Inode
  | .firstTwo => { firstOneInode with iMode := (sIfreg ||| sIrugo).setWidth 16 }
  | _ => firstOneInode

/-- Root opens a file. -/
def rootOpen (address : ℕ) : OpenCall := ⟨⟨0, 0, 0, []⟩, some (address, ⟨⟨0, 0⟩, 0⟩), ⟨0, 0⟩⟩

/-- Root opens `First/one` and `First/two`. -/
def openedPair : List FileEvent :=
  [.openFile 0 .firstOne (rootOpen 0), .openFile 1 .firstTwo (rootOpen 1)]

/-- A byte written to `First/one` comes back from `First/two`, and does so only because it was
written to `First/one`. -/
theorem not_isolated :
    ¬ OwnBytes genericPermission.check initInodes ∧
      ¬ NoInfluence genericPermission.check initInodes := by
  constructor
  · intro hown
    have hreturned := @hown (openedPair ++ [.write 0 [65], .read 1 1]) .firstTwo 65
    revert hreturned
    decide +kernel
  · intro hinfluence
    have hreply := hinfluence openedPair [] 0 1 [65] 1 .firstOne .firstTwo (by decide)
      (by decide +kernel) (by decide +kernel)
    revert hreply
    decide +kernel

end KernelExperiments.Myfs
