import SysLab.Foundation.Csv
import SysLab.Foundation.OutputStream
import SysLab.PartA.Benchmarks
import SysLab.PartA.SizesCsv

/-!
# `main` of `parta_bench`

The program past its arguments: `file_size_of_path`, the five loops over the sizes and
the two calls between them, one pass of a loop or one statement at a time, and the CSV
file with the rows that `write_result` prints.  The CSV file is emptied when it is opened
and receives what is printed when its stream is flushed, at the latest when the process
ends, however it ends; `main` looks at none of these writes.  What the program shows on
the terminal is left out.
-/

namespace SysLab.PartA

open SysLab.Foundation

/-! ## The CSV file -/

/-- `%zu` and `PRIu64`. -/
def numeralText (n : Nat) : List Char := Nat.toDigits 10 n

/-- What a call of `write_result` prints. -/
structure Row where
  method : String
  bufferSize : Nat
  syncMode : String
  totalBytes : Nat
  timing : Timing
  notes : String
  deriving DecidableEq, Repr

/-- `write_csv_header`. -/
def csvHeader : List Char :=
  "method,buffer_size,sync_mode,total_bytes,real_sec,user_sec,sys_sec,mib_per_sec,notes\n".toList

/-- `write_result`. -/
def Row.text (row : Row) : List Char :=
  row.method.toList ++ ',' :: numeralText row.bufferSize ++ ',' :: row.syncMode.toList ++
    ',' :: numeralText row.totalBytes ++ ',' :: row.timing.realSec ++
    ',' :: row.timing.userSec ++ ',' :: row.timing.sysSec ++
    ',' :: row.timing.mibPerSec ++ ',' :: row.notes.toList ++ ['\n']

/-- What has been printed. -/
def csvText (rows : List Row) : List Char := csvHeader ++ rows.flatMap Row.text

/-- Characters as bytes. -/
def asciiBytes (text : List Char) : List UInt8 := text.map fun c => UInt8.ofNat c.toNat

/-! ## The configuration -/

/-- `k_default_write_total_bytes`. -/
def kDefaultWriteTotalBytes : Nat := 8 * 1024 * 1024

namespace Config

/-- `config.input_path`, which `parse_args` never leaves a null pointer. -/
def input (config : Config) : String := config.inputPath.getD ""

/-- `myfread_buffer_size` of `main`. -/
def internalBufferSize (config : Config) : Nat :=
  if config.myfreadBufferSize = 0 then 8192 else config.myfreadBufferSize

/-- `write_total_bytes` of `main`. -/
def totalBytes (config : Config) : Nat :=
  if config.writeTotalBytes = 0 then kDefaultWriteTotalBytes else config.writeTotalBytes

/-- The calls of each loop on one of the sizes, and the two between them. -/
def readCall (config : Config) (chunkSize : Nat) : Call := .readSyscall config.input chunkSize

def getcCall (config : Config) (useFunction : Bool) : Call := .getcLike config.input useFunction

def freadCall (config : Config) (chunkSize : Nat) : Call := .freadStdio config.input chunkSize

def myFreadCall (config : Config) (chunkSize : Nat) : Call :=
  .myFread config.input chunkSize config.internalBufferSize

def writeCall (config : Config) (useOsync : Bool) (chunkSize : Nat) : Call :=
  .writeSyscall config.writeDir chunkSize config.totalBytes useOsync

end Config

/-! ## The program -/

/-- Where `main` is: in one of its loops with the counter `i`, or between the first
two of them. -/
inductive Pc
  | read (i : Nat)
  | getc
  | fgetc
  | fread (i : Nat)
  | myFread (i : Nat)
  | writeOff (i : Nat)
  | writeOn (i : Nat)
  deriving DecidableEq, Repr

/-- What `main` does next; `undefined` if it reads past the sizes. -/
inductive Turn
  | call (call : Call)
  | goto (pc : Pc)
  | finish
  | undefined

/-- The head of a loop over the sizes. -/
def Config.forSizes (config : Config) (i : Nat) (body : Nat → Turn) (past : Turn) : Turn :=
  if i < config.sizeCount then
    match config.sizes[i]? with
    | some chunkSize => body chunkSize
    | none => .undefined
  else past

/-- The statement at `pc`. -/
def Config.turn (config : Config) : Pc → Turn
  | .read i => config.forSizes i (fun size => .call (config.readCall size)) (.goto .getc)
  | .getc => .call (config.getcCall false)
  | .fgetc => .call (config.getcCall true)
  | .fread i => config.forSizes i (fun size => .call (config.freadCall size)) (.goto (.myFread 0))
  | .myFread i =>
      config.forSizes i (fun size => .call (config.myFreadCall size)) (.goto (.writeOff 0))
  | .writeOff i =>
      config.forSizes i
        (fun size =>
          if size < 32 then .goto (.writeOff (i + 1)) else .call (config.writeCall false size))
        (.goto (.writeOn 0))
  | .writeOn i =>
      config.forSizes i
        (fun size =>
          if size < 32 then .goto (.writeOn (i + 1)) else .call (config.writeCall true size))
        .finish

/-- Where it goes on after a call. -/
def Pc.next : Pc → Pc
  | .read i => .read (i + 1)
  | .getc => .fgetc
  | .fgetc => .fread 0
  | .fread i => .fread (i + 1)
  | .myFread i => .myFread (i + 1)
  | .writeOff i => .writeOff (i + 1)
  | .writeOn i => .writeOn (i + 1)

/-- The row for a call. -/
def Call.row (total : Nat) (timing : Timing) : Call → Row
  | .readSyscall _ chunkSize => ⟨"read", chunkSize, "n/a", total, timing, "read()"⟩
  | .getcLike _ useFunction =>
      if useFunction then ⟨"fgetc", 1, "n/a", total, timing, "fgetc() function path"⟩
      else ⟨"getc", 1, "n/a", total, timing, "getc() macro path"⟩
  | .freadStdio _ chunkSize => ⟨"fread", chunkSize, "n/a", total, timing, "fread()"⟩
  | .myFread _ chunkSize _ =>
      ⟨"my_fread", chunkSize, "n/a", total, timing, "custom buffered read()"⟩
  | .writeSyscall _ chunkSize _ useOsync =>
      if useOsync then ⟨"write", chunkSize, "on", total, timing, "write() with O_SYNC"⟩
      else ⟨"write", chunkSize, "off", total, timing, "write() without O_SYNC"⟩

/-- What the environment answers: `stat` and the `fopen` of the CSV file, each call of a
benchmark function, numbered from 0, and what becomes of the CSV file when the header and
each row are printed and when its stream is closed, by `fclose` or at `exit`. -/
structure ProgramEnv (φ : Type*) where
  stat : Bool
  fopen : Bool
  header : Flush
  call : Nat → CallEnv φ
  row : Nat → Flush
  close : Option Nat

/-- The rows printed so far, the stream of the CSV file, the files, and the function that
runs. -/
structure Main (φ : Type*) where
  pc : Pc
  rows : List Row
  csv : OutputStream UInt8
  files : Files
  running : Option (Running φ)

/-- How the process ends. -/
inductive Finish
  | success
  | stopped (stop : Stop)
  | died (why : Die)
  | undefined
  deriving DecidableEq, Repr

/-- With what it leaves behind, and whether a write to the CSV file has failed. -/
structure Finished where
  finish : Finish
  rows : List Row
  files : Files
  ferror : Bool

section Program

variable {φ : Type*}

/-- The CSV file has been opened, and `write_csv_header` called. -/
def Main.start (env : ProgramEnv φ) (config : Config) (files : Files) : Main φ :=
  let csv := OutputStream.opened.print env.header (asciiBytes csvHeader)
  { pc := .read 0
    rows := []
    csv := csv
    files := Function.update files config.outputPath (some csv.file)
    running := none }

/-- The process ends, and the stream of the CSV file is closed. -/
def Main.finish (env : ProgramEnv φ) (config : Config) (s : Main φ) (files : Files)
    (how : Finish) : Finished :=
  let csv := s.csv.close env.close
  { finish := how
    rows := s.rows
    files := Function.update files config.outputPath (some csv.file)
    ferror := csv.error }

/-- A function has returned or ended the process. -/
def Main.settle (env : ProgramEnv φ) (config : Config) (call : Call) (s : Main φ)
    (left : Left) : Progress (Main φ) Finished :=
  match left.result with
  | .ok total =>
      let row := call.row total (env.call s.rows.length).timing
      let csv := s.csv.print (env.row s.rows.length) (asciiBytes row.text)
      .again
        { pc := s.pc.next
          rows := s.rows ++ [row]
          csv := csv
          files := Function.update left.files config.outputPath (some csv.file)
          running := none }
  | .error why => .done (s.finish env config left.files (.died why))

/-- A function goes on, or is left. -/
def Main.proceed (env : ProgramEnv φ) (config : Config) (call : Call) (s : Main φ) :
    Progress (Running φ) Left → Progress (Main φ) Finished
  | .again r => .again { s with running := some r }
  | .done left => s.settle env config call left

/-- One pass of a loop in a function, or one statement of `main`. -/
def Main.pass (lib : CharStdio φ) (env : ProgramEnv φ) (config : Config) (s : Main φ) :
    Progress (Main φ) Finished :=
  match config.turn s.pc with
  | .call call =>
      s.proceed env config call
        (match s.running with
        | none => call.start (env.call s.rows.length) s.files
        | some r => r.pass lib (env.call s.rows.length) s.files)
  | .goto pc => .again { s with pc := pc }
  | .finish => .done (s.finish env config s.files .success)
  | .undefined => .done (s.finish env config s.files .undefined)

/-- `main`, at most `n` passes. -/
def main (lib : CharStdio φ) (env : ProgramEnv φ) (args : List String) (files : Files)
    (n : Nat) : Progress (Main φ) Finished :=
  match parseArgs args with
  | .error stop => .done ⟨.stopped stop, [], files, false⟩
  | .ok config =>
      if env.stat = false ∨ files config.input = none then
        .done ⟨.died (.perror "stat"), [], files, false⟩
      else if env.fopen = false then .done ⟨.died (.perror "fopen"), [], files, false⟩
      else Loop.run (Main.pass lib env config) n (Main.start env config files)

end Program

end SysLab.PartA
