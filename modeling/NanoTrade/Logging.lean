import Mathlib.Data.List.TakeWhile
import NanoTrade.Ends
import NanoTrade.Machine

/-!
# The two loggers

`common/logging.h` and `common/opt_logging.h`: `log` turns a format and its arguments into entries
of a queue, and a thread writes the entries to a file. They expand a format in the same way. A
string argument becomes an entry for each character in the one, and a single entry with a buffer of
256 characters in the other, which holds 255 of them.

* `sameLog_iff`: the two files agree exactly where no string argument is longer than that.
* `not_sameLog_long`: a string of 256 characters.
-/

namespace NanoTrade

/-- What a `const char *` points to, up to the NUL that ends it. -/
structure CString where
  bytes : List UInt8
  noNul : ∀ b ∈ bytes, b ≠ 0

/-- `c_str()`: a NUL inside the string ends it. -/
def CString.ofString (s : List UInt8) : CString :=
  { bytes := s.takeWhile (· ≠ 0)
    noNul := fun _ mem =>
      of_decide_eq_true (List.mem_takeWhile_imp (p := fun b : UInt8 => decide (b ≠ 0)) mem) }

/-- How `operator<<` writes a floating-point number. -/
class StreamedDouble (D : Type) where
  stream : D → List UInt8

/-- How `operator<<` writes an integer. -/
def streamInteger (n : Int) : List UInt8 :=
  (if n < 0 then [45] else []) ++
    (Nat.toDigits 10 n.natAbs).map fun digit => UInt8.ofNat digit.toNat

/-- `Common::LogElement`: the type of an entry with its member of the union. -/
inductive LogElement (D : Type)
  | CHAR (c : UInt8)
  | INTEGER (i : Int)
  | LONG_INTEGER (l : Int)
  | LONG_LONG_INTEGER (ll : Int)
  | UNSIGNED_INTEGER (u : Nat)
  | UNSIGNED_LONG_INTEGER (ul : Nat)
  | UNSIGNED_LONG_LONG_INTEGER (ull : Nat)
  | FLOAT (f : D)
  | DOUBLE (d : D)

/-- `OptCommon::LogElement`: the same types, and strings in a buffer of the entry. -/
inductive OptLogElement (D : Type)
  | primitive (e : LogElement D)
  | STRING (s : { bytes : List UInt8 // bytes.length = 256 })

/-- An argument of `log`. One of a primitive type is given by its entry. -/
inductive LogArgument (D : Type)
  | primitive (e : LogElement D)
  | cString (value : CString)
  | string (value : List UInt8)

/-- `FATAL` ends the process. -/
inductive LogFault
  /-- "extra arguments provided to log()". -/
  | extraArguments
  /-- "missing arguments to log()". -/
  | missingArguments
  deriving DecidableEq, Repr

/-- `'%'`. -/
def PERCENT : UInt8 := 37

/-! ## Formats -/

section Log

variable {α E : Type} (pushValue : α → List E) (pushChar : UInt8 → E)

/-- `log` of both loggers, from the rest of the format on: the entries that it pushes. Behind an
`++s` the next character is pushed whatever it is. -/
def logFrom : Bool → List UInt8 → List α → Except LogFault (List E)
  | _, [], [] => .ok []
  | _, [], _ :: _ => .error .extraArguments
  | escaped, c :: rest, args =>
    if escaped = false ∧ c = PERCENT then
      if rest.head? = some PERCENT then logFrom true rest args -- to allow %% -> %
      else
        match args with
        | [] => .error .missingArguments
        | value :: args => do -- substitute % with the value specified in the arguments.
          let es ← logFrom false rest args
          pure (pushValue value ++ es)
    else do
      let es ← logFrom false rest args
      pure (pushChar c :: es)

end Log

/-- The placeholders of a format. -/
def placeholdersFrom : Bool → List UInt8 → Nat
  | _, [] => 0
  | escaped, c :: rest =>
    if escaped = false ∧ c = PERCENT then
      if rest.head? = some PERCENT then placeholdersFrom true rest
      else placeholdersFrom false rest + 1
    else placeholdersFrom false rest

/-- A call of `log`. -/
structure LogCall (D : Type) where
  format : CString
  args : List (LogArgument D)

/-- As many arguments as placeholders. -/
def LogCall.Matched {D : Type} (call : LogCall D) : Prop :=
  placeholdersFrom false call.format.bytes = call.args.length

/-! ## Entries -/

section Entries

variable {D : Type}

/-- `strncpy(dest, value, n)`: at most `n` characters, and NULs up to `n`. -/
def strncpy (value : CString) (n : Nat) : List UInt8 :=
  value.bytes.take n ++ List.replicate (n - value.bytes.length) 0

theorem length_strncpy (value : CString) (n : Nat) : (strncpy value n).length = n := by
  rw [strncpy, List.length_append, List.length_take, List.length_replicate]
  omega

namespace Logger

/-- `Logger::pushValue`: an entry for each character of a string. -/
def pushValue : LogArgument D → List (LogElement D)
  | .primitive e => [e]
  | .cString value => value.bytes.map .CHAR
  | .string value => (CString.ofString value).bytes.map .CHAR

/-- What `Logger::flushQueue` writes for an entry. -/
def write [StreamedDouble D] : LogElement D → List UInt8
  | .CHAR c => [c]
  | .INTEGER i => streamInteger i
  | .LONG_INTEGER l => streamInteger l
  | .LONG_LONG_INTEGER ll => streamInteger ll
  | .UNSIGNED_INTEGER u => streamInteger u
  | .UNSIGNED_LONG_INTEGER ul => streamInteger ul
  | .UNSIGNED_LONG_LONG_INTEGER ull => streamInteger ull
  | .FLOAT f => StreamedDouble.stream f
  | .DOUBLE d => StreamedDouble.stream d

def log (call : LogCall D) : Except LogFault (List (LogElement D)) :=
  logFrom pushValue .CHAR false call.format.bytes call.args

end Logger

namespace OptLogger

/-- The entry of a string: its last character stays NUL. -/
def stringElement (value : CString) : OptLogElement D :=
  .STRING ⟨strncpy value 255 ++ [0], by rw [List.length_append, length_strncpy]; rfl⟩

/-- `OptLogger::pushValue`. -/
def pushValue : LogArgument D → List (OptLogElement D)
  | .primitive e => [.primitive e]
  | .cString value => [stringElement value]
  | .string value => [stringElement (CString.ofString value)]

/-- What `OptLogger::flushQueue` writes for an entry. -/
def write [StreamedDouble D] : OptLogElement D → List UInt8
  | .primitive e => Logger.write e
  | .STRING s => s.val.takeWhile (· ≠ 0)

def log (call : LogCall D) : Except LogFault (List (OptLogElement D)) :=
  logFrom pushValue (fun c => .primitive (.CHAR c)) false call.format.bytes call.args

end OptLogger

end Entries

/-! ## Logs -/

/-- What the two threads of a logger do. -/
inductive LogEvent (D : Type)
  | log (call : LogCall D)
  /-- `flushQueue` takes an entry, if there is one. -/
  | flush

section Step

variable {D E : Type} (log : LogCall D → Except LogFault (List E)) (write : E → List UInt8)

/-- One event on the entries of the queue, with what is written to the file. -/
def logStep (queue : List E) : LogEvent D → Except LogFault (List E × List UInt8)
  | .log call => do
    let es ← log call
    pure (queue ++ es, [])
  | .flush =>
    match queue with
    | [] => .ok ([], [])
    | e :: queue => .ok (queue, write e)

/-- The calls among the events. -/
def logCalls : List (LogEvent D) → List (LogCall D) :=
  List.filterMap fun
    | .log call => some call
    | .flush => none

/-- The calls have come, in whatever turns with the other thread; all entries are written, and
this is the file. -/
def Writes (calls : List (LogCall D)) (file : List UInt8) : Prop :=
  ∃ events, logCalls events = calls ∧ run (logStep log write) [] events = .ok ([], file)

end Step

/-- Both loggers write the same file, whatever the turns of their threads. -/
def SameLog {D : Type} [StreamedDouble D] (calls : List (LogCall D)) : Prop :=
  ∀ file optFile, Writes Logger.log Logger.write calls file →
    Writes OptLogger.log OptLogger.write calls optFile → file = optFile

/-- What the buffer of an entry holds. -/
def LogArgument.FitsBuffer {D : Type} : LogArgument D → Prop
  | .primitive _ => True
  | .cString value => value.bytes.length ≤ 255
  | .string value => (CString.ofString value).bytes.length ≤ 255

/-! ## Cut texts -/

/-- A text that is cut from another one, and is that one in the given case only. -/
structure Cut (short whole : List UInt8) (same : Prop) : Prop where
  length : short.length ≤ whole.length
  eq_iff : whole = short ↔ same

namespace Cut

variable {short whole short' whole' : List UInt8} {same same' : Prop}

theorem refl (text : List UInt8) : Cut text text True :=
  ⟨Nat.le_refl _, iff_true_intro rfl⟩

theorem append (cut : Cut short whole same) (cut' : Cut short' whole' same') :
    Cut (short ++ short') (whole ++ whole') (same ∧ same') := by
  refine ⟨?_, fun same => ?_, fun ⟨same, same'⟩ => ?_⟩
  · rw [List.length_append, List.length_append]
    exact Nat.add_le_add cut.length cut'.length
  · -- neither part is longer than the whole's, so both are of its length
    have sizes := congrArg List.length same
    rw [List.length_append, List.length_append] at sizes
    have size : whole.length = short.length := by
      have le := cut.length
      have le' := cut'.length
      omega
    obtain ⟨first, rest⟩ := List.append_inj same size
    exact ⟨cut.eq_iff.mp first, cut'.eq_iff.mp rest⟩
  · rw [cut.eq_iff.mpr same, cut'.eq_iff.mpr same']

theorem congr (cut : Cut short whole same) (iff : same ↔ same') : Cut short whole same' :=
  ⟨cut.length, cut.eq_iff.trans iff⟩

/-- Texts in a row. -/
theorem flatMap {α : Type} {f g : α → List UInt8} {P : α → Prop} {xs : List α}
    (each : ∀ x ∈ xs, Cut (f x) (g x) (P x)) :
    Cut (xs.flatMap f) (xs.flatMap g) (∀ x ∈ xs, P x) := by
  induction xs with
  | nil => exact (refl []).congr ⟨fun _ _ mem => (List.not_mem_nil mem).elim, fun _ => trivial⟩
  | cons x xs ih =>
      rw [List.flatMap_cons, List.flatMap_cons]
      exact ((each x List.mem_cons_self).append
        (ih fun y mem => each y (List.mem_cons_of_mem _ mem))).congr List.forall_mem_cons.symm

end Cut

section Texts

variable {D : Type} [StreamedDouble D]

/-- The buffer of an entry is read up to its first NUL. -/
theorem write_stringElement (value : CString) :
    OptLogger.write (OptLogger.stringElement value : OptLogElement D) = value.bytes.take 255 := by
  have full : ∀ b ∈ value.bytes.take 255, decide (b ≠ 0) = true :=
    fun b mem => decide_eq_true (value.noNul b (List.mem_of_mem_take mem))
  have ends : ((List.replicate (255 - value.bytes.length) 0 ++ [0] : List UInt8).takeWhile
      fun b => decide (b ≠ 0)) = [] := by
    cases 255 - value.bytes.length with
    | zero => rfl
    | succ n => rfl
  show (strncpy value 255 ++ [0]).takeWhile (fun b => decide (b ≠ 0)) = _
  rw [strncpy, List.append_assoc, List.takeWhile_append_of_pos full, ends, List.append_nil]

theorem write_chars (bytes : List UInt8) :
    (bytes.map LogElement.CHAR : List (LogElement D)).flatMap Logger.write = bytes := by
  induction bytes with
  | nil => rfl
  | cons b bytes ih =>
      rw [List.map_cons, List.flatMap_cons, ih, Logger.write, List.singleton_append]

/-- One argument. -/
theorem cut_pushValue (a : LogArgument D) :
    Cut ((OptLogger.pushValue a).flatMap OptLogger.write)
      ((Logger.pushValue a).flatMap Logger.write) a.FitsBuffer := by
  have string : ∀ value : CString, Cut
      ([OptLogger.stringElement value].flatMap (OptLogger.write (D := D)))
      ((value.bytes.map LogElement.CHAR).flatMap (Logger.write (D := D)))
      (value.bytes.length ≤ 255) := by
    intro value
    rw [List.flatMap_singleton, write_stringElement, write_chars]
    refine ⟨?_, ?_⟩
    · rw [List.length_take]
      exact Nat.min_le_right _ _
    · constructor
      · intro same
        rw [same, List.length_take]
        exact Nat.min_le_left _ _
      · intro fits
        exact (List.take_of_length_le fits).symm
  cases a with
  | primitive e => exact .refl _
  | cString value => exact string value
  | string value => exact string (CString.ofString value)

/-- One format: both loggers return, and their texts differ where an argument is cut. -/
theorem cut_logFrom {escaped : Bool} {format : List UInt8} {args : List (LogArgument D)}
    (matched : placeholdersFrom escaped format = args.length) :
    ∃ es optEs, logFrom Logger.pushValue .CHAR escaped format args = .ok es ∧
      logFrom OptLogger.pushValue (fun c => .primitive (.CHAR c)) escaped format args =
        .ok optEs ∧
      Cut (optEs.flatMap OptLogger.write) (es.flatMap Logger.write)
        (∀ a ∈ args, a.FitsBuffer) := by
  induction format generalizing escaped args with
  | nil =>
      cases args with
      | nil =>
          exact ⟨[], [], rfl, rfl,
            (Cut.refl []).congr ⟨fun _ _ mem => (List.not_mem_nil mem).elim, fun _ => trivial⟩⟩
      | cons a args => cases matched
  | cons c rest ih =>
      unfold logFrom
      unfold placeholdersFrom at matched
      by_cases percent : escaped = false ∧ c = PERCENT
      · rw [if_pos percent] at *
        rw [if_pos percent]
        by_cases escape : rest.head? = some PERCENT
        · rw [if_pos escape] at *
          rw [if_pos escape]
          exact ih matched
        · rw [if_neg escape] at *
          rw [if_neg escape]
          cases args with
          | nil => cases matched
          | cons a args =>
              obtain ⟨es, optEs, logged, optLogged, cut⟩ := ih (Nat.succ.inj matched)
              simp only [logged, optLogged]
              refine ⟨_, _, rfl, rfl, ?_⟩
              rw [List.flatMap_append, List.flatMap_append]
              exact ((cut_pushValue a).append cut).congr List.forall_mem_cons.symm
      · rw [if_neg percent] at *
        rw [if_neg percent]
        obtain ⟨es, optEs, logged, optLogged, cut⟩ := ih matched
        simp only [logged, optLogged]
        refine ⟨_, _, rfl, rfl, ?_⟩
        rw [List.flatMap_cons, List.flatMap_cons]
        exact ((Cut.refl [c]).append cut).congr (Iff.of_eq (true_and _))

end Texts

/-! ## Files -/

section Files

variable {D E : Type} {log : LogCall D → Except LogFault (List E)} {write : E → List UInt8}
  {calls : List (LogCall D)}

/-- The text of a call. -/
def logText (log : LogCall D → Except LogFault (List E)) (write : E → List UInt8)
    (call : LogCall D) : List UInt8 :=
  match log call with
  | .ok es => es.flatMap write
  | .error _ => []

theorem logText_of_ok {call : LogCall D} {es : List E} (logged : log call = .ok es) :
    logText log write call = es.flatMap write := by
  unfold logText
  rw [logged]

theorem logCalls_append (events later : List (LogEvent D)) :
    logCalls (events ++ later) = logCalls events ++ logCalls later :=
  List.filterMap_append

/-- What is in the file and what is in the queue are the texts of the calls. -/
theorem run_logStep {events : List (LogEvent D)} {queue : List E} {file : List UInt8}
    (ran : run (logStep log write) [] events = .ok (queue, file)) :
    file ++ queue.flatMap write = (logCalls events).flatMap (logText log write) := by
  refine run_invariant (P := fun queue events file =>
    file ++ queue.flatMap write = (logCalls events).flatMap (logText log write)) rfl ?_ ran
  intro queue events file event queue' now holds _ stepped
  rw [logCalls_append, List.flatMap_append, ← holds]
  cases event with
  | log call =>
      obtain ⟨es, logged, finished⟩ := bind_eq_ok.mp stepped
      cases finished
      have one : logCalls [LogEvent.log call] = [call] := rfl
      rw [one, List.flatMap_singleton, logText_of_ok logged, List.append_nil,
        List.flatMap_append, List.append_assoc]
  | flush =>
      have noCalls : logCalls [(LogEvent.flush : LogEvent D)] = [] := rfl
      rw [noCalls, List.flatMap_nil, List.append_nil]
      cases queue with
      | nil =>
          cases stepped
          rw [List.append_nil]
      | cons e queue =>
          cases stepped
          rw [List.flatMap_cons, List.append_assoc]

theorem Writes.file_eq {file : List UInt8} (writes : Writes log write calls file) :
    file = calls.flatMap (logText log write) := by
  obtain ⟨events, rfl, ran⟩ := writes
  have texts := run_logStep ran
  rw [List.flatMap_nil, List.append_nil] at texts
  exact texts

/-- Enough turns of the other thread write all entries. -/
theorem run_flush (queue : List E) :
    run (logStep log write) queue (List.replicate queue.length .flush) =
      .ok ([], queue.flatMap write) := by
  induction queue with
  | nil => rfl
  | cons e queue ih =>
      rw [List.length_cons, List.replicate_succ, List.flatMap_cons]
      exact run_cons.mpr ⟨queue, write e, _, rfl, ih, rfl⟩

/-- Calls that return are written. -/
theorem writes_of_ok (logged : ∀ call ∈ calls, ∃ es, log call = .ok es) :
    Writes log write calls (calls.flatMap (logText log write)) := by
  induction calls using List.reverseRecOn with
  | nil => exact ⟨[], rfl, rfl⟩
  | append_singleton calls call ih =>
      obtain ⟨events, shape, ran⟩ := ih fun c mem => logged c (List.mem_append_left _ mem)
      obtain ⟨es, last⟩ := logged call (List.mem_append_right _ (List.mem_singleton_self _))
      refine ⟨events ++ .log call :: List.replicate es.length .flush, ?_, ?_⟩
      · rw [logCalls_append, shape]
        refine congrArg (calls ++ call :: ·) (List.filterMap_eq_nil_iff.mpr fun event mem => ?_)
        rw [List.eq_of_mem_replicate mem]
      · rw [List.flatMap_append, List.flatMap_singleton, logText_of_ok last]
        refine run_append.mpr ⟨[], _, _, ran, run_cons.mpr ⟨es, [], _, ?_, run_flush es, rfl⟩, rfl⟩
        rw [logStep, last]
        rfl

end Files

section Same

variable {D : Type} [StreamedDouble D] {calls : List (LogCall D)}

/-- One call returns in both loggers, and its texts differ where an argument is cut. -/
theorem cut_logText {call : LogCall D} (matched : call.Matched) :
    (∃ es, Logger.log call = .ok es) ∧ (∃ es, OptLogger.log call = .ok es) ∧
      Cut (logText OptLogger.log OptLogger.write call) (logText Logger.log Logger.write call)
        (∀ a ∈ call.args, a.FitsBuffer) := by
  obtain ⟨es, optEs, logged, optLogged, cut⟩ := cut_logFrom matched
  have logged : Logger.log call = .ok es := logged
  have optLogged : OptLogger.log call = .ok optEs := optLogged
  refine ⟨⟨es, logged⟩, ⟨optEs, optLogged⟩, ?_⟩
  rw [logText_of_ok logged, logText_of_ok optLogged]
  exact cut

/-- There is one file of each logger, which is the text of the calls. -/
theorem sameLog_texts (matched : ∀ call ∈ calls, call.Matched) :
    SameLog calls ↔
      calls.flatMap (logText Logger.log Logger.write) =
        calls.flatMap (logText OptLogger.log OptLogger.write) := by
  constructor
  · intro same
    exact same _ _ (writes_of_ok fun call mem => (cut_logText (matched call mem)).1)
      (writes_of_ok fun call mem => (cut_logText (matched call mem)).2.1)
  · intro same file optFile writes optWrites
    rw [writes.file_eq, optWrites.file_eq, same]

/-- **The two loggers write the same file** exactly where no string argument is longer than the
buffer of an entry holds. -/
theorem sameLog_iff (matched : ∀ call ∈ calls, call.Matched) :
    SameLog calls ↔ ∀ call ∈ calls, ∀ a ∈ call.args, a.FitsBuffer := by
  rw [sameLog_texts matched]
  exact (Cut.flatMap fun call mem => (cut_logText (matched call mem)).2.2).eq_iff

end Same

/-- A log without floating-point arguments. -/
instance : StreamedDouble Empty :=
  ⟨fun d => nomatch d⟩

/-- `log("%% %", value)`. -/
def percentCall (value : List UInt8) : LogCall Empty :=
  { format := .ofString [PERCENT, PERCENT, 32, PERCENT]
    args := [.string value] }

theorem percentCall_matched (value : List UInt8) :
    ∀ call ∈ [percentCall value], call.Matched := by
  intro call mem
  rw [List.mem_singleton.mp mem]
  rfl

/-- Two letters. -/
theorem sameLog_iff_letters :
    SameLog [percentCall [104, 105]] ↔
      ∀ call ∈ [percentCall [104, 105]], ∀ a ∈ call.args, a.FitsBuffer :=
  sameLog_iff (percentCall_matched _)

/-- A string of 256 letters loses the last one. -/
theorem not_sameLog_long : ¬ SameLog [percentCall (List.replicate 256 97)] := by
  intro same
  have matched := percentCall_matched (List.replicate 256 97)
  rw [sameLog_texts matched, List.flatMap_singleton, List.flatMap_singleton,
    (cut_logText (matched _ (List.mem_singleton_self _))).2.2.eq_iff] at same
  have fits : (CString.ofString (List.replicate 256 97)).bytes.length ≤ 255 :=
    same _ (List.mem_singleton_self _)
  revert fits
  decide +kernel

end NanoTrade
