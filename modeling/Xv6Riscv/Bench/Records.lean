import Mathlib.Tactic

/-!
The records of the scheduler benchmark (`print_result` of `user/schedbench.c`).

A record is one line of `key=value` fields, most of them decimal integers. `consolewrite` sends it
in pieces of 32 bytes, between which pieces of other records may be sent.
-/

namespace Xv6Riscv

namespace Bench

abbrev Text := List Char

/-! ### Integers -/

/-- `'0' + d`. -/
def digitChar (d : ℕ) : Char := Char.ofNat (48 + d)

/-- The loops of `append_int`, with room for `n` digits: the last digit is found first. -/
def digitsLoop : ℕ → ℕ → Text → Text
  | 0, _, out => out
  | n + 1, u, out =>
    let out := digitChar (u % 10) :: out
    if u / 10 = 0 then out else digitsLoop n (u / 10) out

def appendInt (value : Int32) : Text :=
  if value < 0 then '-' :: digitsLoop 16 (-value).toUInt32.toNat []
  else digitsLoop 16 value.toUInt32.toNat []

def appendField (name : String) (value : Int32) : Text := name.toList ++ '=' :: appendInt value

/-! ### Records -/

/-- The fields of `struct psinfo` that are printed. -/
structure Psinfo where
  priority : Int32
  queueLevel : Int32
  timeSlice : Int32
  runTime : UInt64
  readyCount : UInt64
  readyTicks : UInt64
  totalReadyTime : UInt64
  waitCount : UInt64
  scheduleCount : UInt64
  createTick : UInt64
  firstRunTick : UInt64
  schedPolicy : Int32

/-- The arguments of `print_result`. -/
structure Record where
  job : Int32
  kind : Int32
  start : Int32
  first : Int32
  finish : Int32
  work : Int32
  info : Psinfo

/-- `(int)x` for a `uint64`. -/
def toInt (x : UInt64) : Int32 := x.toUInt32.toInt32

namespace Record

def kindName (r : Record) : String :=
  if r.kind = 1 then "io" else if r.kind = 2 then "mixed" else "cpu"

def kernelResponse (r : Record) : Int32 :=
  if 0 < r.info.scheduleCount then toInt (r.info.firstRunTick - r.info.createTick) else -1

/-- The fields after `kind`, up to `kernel_response`. -/
def middle (r : Record) : List (String × Int32) :=
  [("start", r.start), ("first", r.first), ("finish", r.finish), ("service", r.work),
    ("turnaround", r.finish - r.start), ("response", r.first - r.start),
    ("priority", r.info.priority), ("queue", r.info.queueLevel), ("slice", r.info.timeSlice),
    ("run_ticks", toInt r.info.runTime), ("ready_count", toInt r.info.readyCount),
    ("ready_ticks", toInt r.info.readyTicks),
    ("total_ready_time", toInt r.info.totalReadyTime), ("wait_count", toInt r.info.waitCount),
    ("schedule_count", toInt r.info.scheduleCount), ("create_tick", toInt r.info.createTick),
    ("first_run_tick", toInt r.info.firstRunTick)]

/-- The integers that are printed, with their names. -/
def ints (r : Record) : List (String × Int32) :=
  ("job", r.job) :: r.middle ++ [("kernel_response", r.kernelResponse),
    ("policy", r.info.schedPolicy)]

/-- The line `print_result` writes. -/
def printResult (r : Record) : Text :=
  "SCHEDBENCH ".toList ++
  appendField "job" r.job ++
  " kind=".toList ++
  r.kindName.toList ++
  " ".toList ++
  appendField "start" r.start ++
  " ".toList ++
  appendField "first" r.first ++
  " ".toList ++
  appendField "finish" r.finish ++
  " ".toList ++
  appendField "service" r.work ++
  " ".toList ++
  appendField "turnaround" (r.finish - r.start) ++
  " ".toList ++
  appendField "response" (r.first - r.start) ++
  " ".toList ++
  appendField "priority" r.info.priority ++
  " ".toList ++
  appendField "queue" r.info.queueLevel ++
  " ".toList ++
  appendField "slice" r.info.timeSlice ++
  " ".toList ++
  appendField "run_ticks" (toInt r.info.runTime) ++
  " ".toList ++
  appendField "ready_count" (toInt r.info.readyCount) ++
  " ".toList ++
  appendField "ready_ticks" (toInt r.info.readyTicks) ++
  " ".toList ++
  appendField "total_ready_time" (toInt r.info.totalReadyTime) ++
  " ".toList ++
  appendField "wait_count" (toInt r.info.waitCount) ++
  " ".toList ++
  appendField "schedule_count" (toInt r.info.scheduleCount) ++
  " ".toList ++
  appendField "create_tick" (toInt r.info.createTick) ++
  " ".toList ++
  appendField "first_run_tick" (toInt r.info.firstRunTick) ++
  " ".toList ++
  appendField "kernel_response" r.kernelResponse ++
  " ".toList ++
  appendField "policy" r.info.schedPolicy ++
  ['\n']

/-- The fields in front of `kernel_response`. -/
def early (r : Record) : List Text :=
  appendField "job" r.job :: ("kind=".toList ++ r.kindName.toList) ::
    r.middle.map fun (name, v) => appendField name v

/-- A list of fields, each followed by a blank. -/
def line (fields : List Text) : Text := fields.flatMap fun w => w ++ [' ']

/-- What comes after the marker, without the integer after the last but one field name. -/
def body (r : Record) : Text :=
  line r.early ++ (appendField "kernel_response" r.kernelResponse ++
    ' ' :: (appendField "policy" r.info.schedPolicy ++ ['\n']))

/-- **The text of a record**: the marker and the fields. -/
lemma printResult_eq (r : Record) : r.printResult = "SCHEDBENCH ".toList ++ r.body := by
  have hblank : " ".toList = [' '] := by decide
  have hkind : " kind=".toList = ' ' :: "kind=".toList := by decide
  delta printResult body early middle line
  simp only [hblank, hkind, List.map_cons, List.map_nil, List.flatMap_cons, List.flatMap_nil,
    List.append_assoc, List.cons_append, List.nil_append]

end Record

/-! ### Pieces -/

/-- The size of the buffer of `consolewrite`. -/
def pieceSize : ℕ := 32

/-- The piece number `k` of a text. -/
def piece (t : Text) (k : ℕ) : Text := (t.drop (pieceSize * k)).take pieceSize

def pieceCount (t : Text) : ℕ := (t.length + pieceSize - 1) / pieceSize

lemma take_append_piece (t : Text) (k : ℕ) :
    t.take (pieceSize * k) ++ piece t k = t.take (pieceSize * (k + 1)) := by
  rw [piece, Nat.mul_succ, List.take_add]

lemma length_le_pieceCount (t : Text) : t.length ≤ pieceSize * pieceCount t := by
  rw [pieceCount, pieceSize]
  omega

lemma take_pieceCount (t : Text) : t.take (pieceSize * pieceCount t) = t :=
  List.take_of_length_le (length_le_pieceCount t)

section Stream

variable {ι : Type*} [DecidableEq ι]

/-- What is sent when records take turns: those of the list send their next piece, one after
another, and `sent` says how many pieces each has sent before. -/
def stream (text : ι → Text) : (ι → ℕ) → List ι → Text
  | _, [] => []
  | sent, i :: order =>
    piece (text i) (sent i) ++ stream text (Function.update sent i (sent i + 1)) order

/-- The pieces that were sent after some turns. -/
def sentAfter : (ι → ℕ) → List ι → ι → ℕ
  | sent, [] => sent
  | sent, i :: order => sentAfter (Function.update sent i (sent i + 1)) order

/-- Every record sends all its pieces. -/
def Interleaving (text : ι → Text) (order : List ι) : Prop :=
  ∀ i, order.count i = pieceCount (text i)

variable {text : ι → Text} {sent : ι → ℕ} {order order' : List ι} {i : ι}

lemma sentAfter_eq (sent : ι → ℕ) (order : List ι) (i : ι) :
    sentAfter sent order i = sent i + order.count i := by
  induction order generalizing sent with
  | nil => rfl
  | cons j order ih =>
    rw [sentAfter, ih, List.count_cons]
    rcases eq_or_ne i j with rfl | hij
    · rw [Function.update_self]
      simp
      omega
    · rw [Function.update_of_ne hij]
      simp [hij.symm]

lemma stream_append (sent : ι → ℕ) (order order' : List ι) :
    stream text sent (order ++ order') =
      stream text sent order ++ stream text (sentAfter sent order) order' := by
  induction order generalizing sent with
  | nil => rfl
  | cons j order ih => rw [List.cons_append, stream, stream, ih, List.append_assoc, sentAfter]

/-- **A record that sends pieces in a row**: with those sent before, they are its beginning. -/
lemma take_append_stream (n : ℕ) (sent : ι → ℕ) (i : ι) :
    (text i).take (pieceSize * sent i) ++ stream text sent (List.replicate n i) =
      (text i).take (pieceSize * (sent i + n)) := by
  induction n generalizing sent with
  | zero => simp [stream]
  | succ n ih =>
    have hrest := ih (Function.update sent i (sent i + 1))
    rw [Function.update_self] at hrest
    rw [List.replicate_succ, stream, ← List.append_assoc, take_append_piece, hrest]
    congr 2
    omega

end Stream

end Bench

end Xv6Riscv
