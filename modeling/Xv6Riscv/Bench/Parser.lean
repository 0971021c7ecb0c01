import Xv6Riscv.Bench.Records
import Xv6Riscv.Lib.Split

/-!
The host's parser of the benchmark's output (`parse_output` of `scripts/run-schedbench.py`).

The parser looks for the marker `SCHEDBENCH`, takes everything up to the next marker for one record
and reads it as `key=value` items, of which later ones overwrite earlier ones. A record without one
of the required keys is malformed, and one malformed record makes the parser fail.
-/

namespace Xv6Riscv

open Function (update update_of_ne update_self)

namespace Bench

open Split

/-! ### Python's strings -/

/-- `str.isspace` for one character, which is also `\s` of a regular expression. -/
def isSpace (c : Char) : Bool :=
  let n := c.toNat
  (9 ≤ n && n ≤ 13) || (28 ≤ n && n ≤ 32) || n = 0x85 || n = 0xa0 || n = 0x1680 ||
    (0x2000 ≤ n && n ≤ 0x200a) || n = 0x2028 || n = 0x2029 || n = 0x202f || n = 0x205f || n = 0x3000

def digitVal (c : Char) : ℕ := c.toNat - 48

/-- The digits of `int(value)` after the first one; single underscores may stand between digits. -/
def moreDigits : ℕ → Text → Option ℕ
  | a, [] => some a
  | a, '_' :: d :: ds => if d.isDigit then moreDigits (10 * a + digitVal d) ds else none
  | a, c :: cs => if c.isDigit then moreDigits (10 * a + digitVal c) cs else none

/-- The digits of `int(value)`. -/
def pyNat : Text → Option ℕ
  | [] => none
  | c :: cs => if c.isDigit then moreDigits (digitVal c) cs else none

/-- `int(value)` for a value without blanks; `none` is a `ValueError`. -/
def pyInt : Text → Option ℤ
  | '-' :: cs => (pyNat cs).map fun n => -n
  | '+' :: cs => (pyNat cs).map fun n => n
  | cs => (pyNat cs).map fun n => n

/-! ### Rows -/

inductive PyVal
  | int (v : ℤ)
  | str (s : Text)
  deriving DecidableEq

/-- A `dict`. -/
abbrev Row := Text → Option PyVal

def intFields : List Text :=
  ["job", "start", "first", "finish", "service", "turnaround", "response", "priority", "queue",
    "slice", "run_ticks", "ready_count", "ready_ticks", "total_ready_time", "wait_count",
    "schedule_count", "create_tick", "first_run_tick", "kernel_response",
    "policy"].map String.toList

/-- The body of the loop of `parse_key_values`. -/
def keyValue (result : Row) (item : Text) : Option Row :=
  if '=' ∉ item then some result
  else
    -- `item.split("=", 1)`
    let key := item.takeWhile (· ≠ '=')
    let value := (item.dropWhile (· ≠ '=')).tail
    if value = [] then some result
    else
      let key := if key = "policy".toList then "kernel_policy".toList else key
      if key ∈ intFields ∨ key = "kernel_policy".toList then
        (pyInt value).map fun v => update result key (some (.int v))
      else some (update result key (some (.str value)))

/-- `parse_key_values`; `none` is a `ValueError`. -/
def parseKeyValues (text : Text) : Option Row :=
  (words isSpace text).foldlM keyValue fun _ => none

def required : List Text :=
  ["job", "kind", "service", "turnaround", "run_ticks", "total_ready_time", "schedule_count",
    "kernel_response"].map String.toList

/-- The row of a record, if it is well formed. -/
def row (text : Text) : Option Row :=
  (parseKeyValues text).filter fun r => required.all fun k => (r k).isSome

/-! ### The regular expressions -/

/-- The beginning of `RESULT_RE`, and what comes after it: `SCHEDBENCH\s+(?=job=)`. -/
def opens (l : Text) : Option Text :=
  match l.dropPrefix? "SCHEDBENCH".toList with
  | none => none
  | some r =>
    if (r.takeWhile isSpace ≠ []) ∧ "job=".toList <+: r.dropWhile isSpace then
      some (r.dropWhile isSpace)
    else none

/-- The end of `RESULT_RE`: `(?=SCHEDBENCH(?:\s|_|$)|$)`. -/
def stops (l : Text) : Bool :=
  l = [] || l = ['\n'] ||
    match l.dropPrefix? "SCHEDBENCH".toList with
    | none => false
    | some [] => true
    | some (c :: _) => isSpace c || c = '_'

/-- The shortest text up to the end of a record, and what comes after it: `(.*?)`. -/
def untilStop : Text → Text × Text
  | [] => ([], [])
  | c :: cs =>
    if stops (c :: cs) then ([], c :: cs)
    else ((c :: (untilStop cs).1), (untilStop cs).2)

/-- `RESULT_RE.finditer`, with fuel for the characters. -/
def findIter : ℕ → Text → List Text
  | 0, _ => []
  | _, [] => []
  | n + 1, c :: cs =>
    match opens (c :: cs) with
    | some r => (untilStop r).1 :: findIter n (untilStop r).2
    | none => findIter n cs

/-- The matches of `RESULT_RE`. -/
def results (output : Text) : List Text := findIter output.length output

/-- A match of `END_RE` at the beginning:
`SCHEDBENCH_END start=(\d+) finish=(\d+)(?=\r?\n)`. -/
def endAt (l : Text) : Option (ℤ × ℤ) := do
  let l ← l.dropPrefix? "SCHEDBENCH_END start=".toList
  let start ← pyInt (l.takeWhile Char.isDigit)
  let l ← (l.dropWhile Char.isDigit).dropPrefix? " finish=".toList
  let finish ← pyInt (l.takeWhile Char.isDigit)
  let l := l.dropWhile Char.isDigit
  if ['\n'] <+: l ∨ ['\r', '\n'] <+: l then some (start, finish) else none

/-- `END_RE.search`. -/
def endSearch : Text → Option (ℤ × ℤ)
  | [] => none
  | c :: cs => (endAt (c :: cs)).or (endSearch cs)

/-! ### The parser -/

/-- The `RuntimeError`s of `parse_output`. -/
inductive ParseError
  /-- "could not parse benchmark output", with the last 1000 characters -/
  | couldNotParse (tail : Text)
  /-- "malformed benchmark record", with the keys that are missing and the record -/
  | malformed (missing : List Text) (text : Text)

/-- `sorted(required - record_keys)`. -/
def missing (text : Text) : List Text :=
  let keys := ((words isSpace text).filter ('=' ∈ ·)).map fun item => item.takeWhile (· ≠ '=')
  (["job", "kernel_response", "kind", "run_ticks", "schedule_count", "service",
    "total_ready_time", "turnaround"].map String.toList).filter (· ∉ keys)

/-- The columns that are the same for all records. -/
def withRun (policy : Text) (run start finish : ℤ) (r : Row) : Row :=
  let r := update r "policy".toList (some (.str policy))
  let r := update r "run".toList (some (.int run))
  let r := update r "experiment_start".toList (some (.int start))
  let r := update r "experiment_finish".toList (some (.int finish))
  update r "elapsed".toList (some (.int (finish - start)))

def parseOutput (output : Text) (policy : Text) (run : ℤ) : Except ParseError (List Row) :=
  let rows := (results output).filterMap row
  let malformed := (results output).filter fun t => (row t).isNone
  match rows, endSearch output with
  | [], _ => .error (.couldNotParse (output.drop (output.length - 1000)))
  | _, none => .error (.couldNotParse (output.drop (output.length - 1000)))
  | rows, some (start, finish) =>
    match malformed with
    | t :: _ => .error (.malformed (missing t) t)
    | [] => .ok (rows.map (withRun policy run start finish))

/-! ### Markers -/

section Markers

variable {c : Char} {l w rest : Text}

lemma dropPrefix_marker (hc : c ≠ 'S') : (c :: l).dropPrefix? "SCHEDBENCH".toList = none := by
  have hmark : "SCHEDBENCH".toList = 'S' :: "CHEDBENCH".toList := by decide
  rw [hmark, List.dropPrefix?]
  simp [hc]

lemma opens_of_ne (hc : c ≠ 'S') : opens (c :: l) = none := by
  rw [opens, dropPrefix_marker hc]

lemma stops_of_ne (hc : c ≠ 'S') (hl : l ≠ []) : stops (c :: l) = false := by
  rw [stops, dropPrefix_marker hc]
  simp [hl]

lemma untilStop_append (hw : ∀ c ∈ w, c ≠ 'S') (hrest : rest ≠ []) (hs : stops rest = true) :
    untilStop (w ++ rest) = (w, rest) := by
  induction w with
  | nil =>
    obtain ⟨c, cs, rfl⟩ := List.exists_cons_of_ne_nil hrest
    rw [List.nil_append, untilStop, if_pos hs]
  | cons c w ih =>
    rw [List.cons_append, untilStop, stops_of_ne (hw c List.mem_cons_self) (by simp [hrest]),
      ih fun d hd => hw d (List.mem_cons_of_mem _ hd)]
    rfl

lemma dropPrefix_append (p l : Text) : (p ++ l).dropPrefix? p = some l :=
  List.dropPrefix?_append_of_beq l (beq_self_eq_true p)

lemma opens_marker (hw : "job=".toList <+: w) : opens ("SCHEDBENCH ".toList ++ w) = some w := by
  have hmark : "SCHEDBENCH ".toList = "SCHEDBENCH".toList ++ [' '] := by decide
  have hdrop : (' ' :: w).dropWhile isSpace = w := by
    obtain ⟨w', rfl⟩ := hw
    have hjob : "job=".toList ++ w' = 'j' :: ("ob=".toList ++ w') := rfl
    rw [hjob, List.dropWhile_cons_of_pos (by decide), List.dropWhile_cons_of_neg (by decide)]
  have htake : (' ' :: w).takeWhile isSpace ≠ [] := by
    rw [List.takeWhile_cons_of_pos (by decide)]
    exact List.cons_ne_nil _ _
  rw [opens, hmark, List.append_assoc, dropPrefix_append]
  change (if (' ' :: w).takeWhile isSpace ≠ [] ∧ _ <+: (' ' :: w).dropWhile isSpace then
    some ((' ' :: w).dropWhile isSpace) else none) = _
  rw [hdrop, if_pos ⟨htake, hw⟩]

lemma length_opens {r : Text} (h : opens l = some r) : r.length < l.length := by
  rw [opens] at h
  split at h
  · cases h
  · rename_i s hs
    obtain ⟨p, rfl, hp⟩ := List.dropPrefix?_eq_some_iff.mp hs
    rw [eq_of_beq hp]
    split_ifs at h
    cases h
    have hle := (List.dropWhile_suffix isSpace (l := s)).length_le
    rw [List.length_append]
    have : "SCHEDBENCH".toList.length = 10 := by decide
    omega

lemma length_untilStop (l : Text) : (untilStop l).2.length ≤ l.length := by
  induction l with
  | nil => exact le_rfl
  | cons c l ih =>
    rw [untilStop]
    split_ifs
    · exact le_rfl
    · exact ih.trans (Nat.le_succ _)

lemma findIter_nil (n : ℕ) : findIter n [] = [] := by
  cases n <;> rfl

lemma findIter_congr : ∀ {m n : ℕ} {l : Text}, l.length ≤ m → l.length ≤ n →
    findIter m l = findIter n l
  | m, n, [], _, _ => by rw [findIter_nil, findIter_nil]
  | m + 1, n + 1, c :: l, hm, hn => by
      rw [List.length_cons] at hm hn
      rw [findIter, findIter]
      cases ho : opens (c :: l) with
      | none => exact findIter_congr (by omega) (by omega)
      | some r =>
        have hr := length_opens ho
        have hu := length_untilStop r
        rw [List.length_cons] at hr
        exact congrArg _ (findIter_congr (by omega) (by omega))

lemma results_cons (c : Char) (l : Text) : results (c :: l) =
    match opens (c :: l) with
    | some r => (untilStop r).1 :: results (untilStop r).2
    | none => results l := by
  rw [results, List.length_cons, findIter]
  cases ho : opens (c :: l) with
  | none => rfl
  | some r =>
    have hr := length_opens ho
    have hu := length_untilStop r
    rw [List.length_cons] at hr
    exact congrArg _ (findIter_congr (by omega) le_rfl)

lemma results_of_ne (h : ∀ c ∈ l, c ≠ 'S') : results l = [] := by
  induction l with
  | nil => rfl
  | cons c l ih =>
    rw [results_cons, opens_of_ne (h c List.mem_cons_self)]
    exact ih fun d hd => h d (List.mem_cons_of_mem _ hd)

/-- **One record**, from a marker up to the next one. -/
lemma results_marker (hw : ∀ c ∈ w, c ≠ 'S') (hjob : "job=".toList <+: w) (hrest : rest ≠ [])
    (hs : stops rest = true) :
    results ("SCHEDBENCH ".toList ++ (w ++ rest)) = w :: results rest := by
  have hcons : "SCHEDBENCH ".toList ++ (w ++ rest) = 'S' :: ("CHEDBENCH ".toList ++ (w ++ rest)) :=
    rfl
  rw [hcons, results_cons, ← hcons, opens_marker (hjob.trans (List.prefix_append ..))]
  dsimp only
  rw [untilStop_append hw hrest hs]

end Markers

/-! ### Integers -/

lemma digitChar_eq {d : ℕ} (hd : d < 10) : digitChar d = d.digitChar := by
  interval_cases d <;> decide

/-- **The digits of a number** in front of what was there. -/
lemma digitsLoop_eq : ∀ {n u : ℕ} (out : Text), 0 < n → u < 10 ^ n →
    digitsLoop n u out = Nat.toDigits 10 u ++ out
  | n + 1, u, out, _, hu => by
      rw [digitsLoop, digitChar_eq (Nat.mod_lt u (by decide))]
      split_ifs with hz
      · have hlt : u < 10 := by omega
        rw [Nat.toDigits_of_lt_base hlt, Nat.mod_eq_of_lt hlt]
        rfl
      · rw [pow_succ] at hu
        have hn : 0 < n := Nat.pos_of_ne_zero (by rintro rfl; omega)
        rw [Nat.toDigits_of_base_le (by decide) (by omega : 10 ≤ u), digitsLoop_eq _ hn (by omega)]
        simp

lemma moreDigits_digit {c : Char} (hc : c.isDigit = true) (a : ℕ) (cs : Text) :
    moreDigits a (c :: cs) = moreDigits (10 * a + digitVal c) cs := by
  rw [moreDigits, if_pos hc]
  rintro d ds rfl
  exact absurd hc (by decide)

variable {ds k : Text}

lemma moreDigits_digits (hds : ∀ d ∈ ds, d.isDigit = true) (a : ℕ) :
    moreDigits a ds = some (Nat.ofDigitChars 10 ds a) := by
  induction ds generalizing a with
  | nil => rfl
  | cons d ds ih =>
    rw [moreDigits_digit (hds d List.mem_cons_self),
      ih fun e he => hds e (List.mem_cons_of_mem _ he)]
    rfl

lemma isDigit_toDigits {n : ℕ} : ∀ c ∈ Nat.toDigits 10 n, c.isDigit = true := fun _ =>
  Nat.isDigit_of_mem_toDigits (by decide) le_rfl

lemma pyNat_toDigits (n : ℕ) : pyNat (Nat.toDigits 10 n) = some n := by
  have hval := Nat.ofDigitChars_ten_toDigits (n := n)
  have hdig := isDigit_toDigits (n := n)
  obtain ⟨d, ds, h⟩ := List.exists_cons_of_ne_nil (Nat.toDigits_ne_nil (b := 10) (n := n))
  rw [h] at hval hdig ⊢
  rw [pyNat, if_pos (hdig d List.mem_cons_self),
    moreDigits_digits fun e he => hdig e (List.mem_cons_of_mem _ he)]
  rw [Nat.ofDigitChars_cons, Nat.mul_zero, Nat.zero_add] at hval
  exact congrArg some hval

lemma pyInt_toDigits (n : ℕ) : pyInt (Nat.toDigits 10 n) = some (n : ℤ) := by
  have hsign : ∀ c cs, Nat.toDigits 10 n = c :: cs → c.isDigit = true := fun c cs he =>
    isDigit_toDigits c (he ▸ List.mem_cons_self)
  rw [pyInt, pyNat_toDigits]
  · rfl
  · exact fun cs he => absurd (hsign _ cs he) (by decide)
  · exact fun cs he => absurd (hsign _ cs he) (by decide)

variable {v : Int32}

/-- **`append_int`** writes the decimal representation. -/
lemma appendInt_eq (v : Int32) : appendInt v = if v.toInt < 0
    then '-' :: Nat.toDigits 10 v.toInt.natAbs else Nat.toDigits 10 v.toInt.natAbs := by
  have hloop : ∀ u : UInt32, digitsLoop 16 u.toNat [] = Nat.toDigits 10 u.toNat := fun u => by
    rw [digitsLoop_eq _ (by decide) (u.toNat_lt.trans (by decide)), List.append_nil]
  have habs : (if v.toInt < 0 then -v.toUInt32 else v.toUInt32).toNat = v.toInt.natAbs := by
    have hint : v.toInt = v.toUInt32.toBitVec.toInt := rfl
    have hlt := v.toUInt32.toNat_lt
    rw [hint, BitVec.toInt_eq_toNat_cond, UInt32.toNat_toBitVec]
    have hneg := UInt32.toNat_neg v.toUInt32
    rw [UInt32.size] at hneg
    split_ifs <;> omega
  simp only [appendInt, Int32.lt_iff_toInt_lt, hloop, Int32.toUInt32_neg]
  change (if v.toInt < 0 then _ else _) = _
  split_ifs at habs ⊢ <;> rw [habs]

lemma pyInt_appendInt (v : Int32) : pyInt (appendInt v) = some v.toInt := by
  rw [appendInt_eq]
  split_ifs with hneg
  · rw [pyInt, pyNat_toDigits]
    change some (-(v.toInt.natAbs : ℤ)) = _
    rw [Int.ofNat_natAbs_of_nonpos hneg.le, neg_neg]
  · rw [pyInt_toDigits, Int.natAbs_of_nonneg (not_lt.mp hneg)]

lemma appendInt_ne_nil (v : Int32) : appendInt v ≠ [] := by
  rw [appendInt_eq]
  split_ifs
  · exact List.cons_ne_nil _ _
  · exact Nat.toDigits_ne_nil

lemma mem_appendInt {c : Char} (hc : c ∈ appendInt v) : c = '-' ∨ c.isDigit = true := by
  rw [appendInt_eq] at hc
  split_ifs at hc
  · exact (List.mem_cons.mp hc).imp_right (isDigit_toDigits c)
  · exact .inr (isDigit_toDigits c hc)

/-! ### Fields -/

/-- A character that neither separates words nor begins a marker. -/
def Plain (c : Char) : Prop := isSpace c = false ∧ c ≠ 'S'

instance : DecidablePred Plain := fun _ => inferInstanceAs (Decidable (_ ∧ _))

lemma plain_of_isDigit {c : Char} (h : c.isDigit = true) : Plain c := by
  have hn : 48 ≤ c.toNat ∧ c.toNat ≤ 57 := by
    simpa [Char.isDigit, UInt32.le_iff_toNat_le] using h
  refine ⟨?_, ?_⟩
  · rw [isSpace]
    simp only [Bool.or_eq_false_iff, Bool.and_eq_false_iff, decide_eq_false_iff_not]
    omega
  · rintro rfl
    exact absurd h (by decide)

variable {name : String}

lemma plain_appendField (hname : ∀ c ∈ name.toList, Plain c) (v : Int32) :
    ∀ c ∈ appendField name v, Plain c := by
  intro c hc
  rcases List.mem_append.mp hc with hc | hc
  · exact hname c hc
  · rcases List.mem_cons.mp hc with rfl | hc
    · decide
    · rcases mem_appendInt hc with rfl | hc
      · decide
      · exact plain_of_isDigit hc

lemma takeWhile_field {v : Text} (hk : '=' ∉ k) :
    (k ++ '=' :: v).takeWhile (· ≠ '=') = k ∧ ((k ++ '=' :: v).dropWhile (· ≠ '=')).tail = v := by
  have hall : ∀ c ∈ k, (decide (c ≠ '=')) = true := fun c hc =>
    decide_eq_true fun he => hk (he ▸ hc)
  rw [List.takeWhile_append_of_pos hall, List.dropWhile_append_of_pos hall]
  simp

/-- **A field** sets its column. -/
lemma keyValue_field {v : Text} (hk : '=' ∉ k) (hv : v ≠ []) (result : Row) :
    keyValue result (k ++ '=' :: v) =
      let key := if k = "policy".toList then "kernel_policy".toList else k
      if key ∈ intFields ∨ key = "kernel_policy".toList then
        (pyInt v).map fun v => update result key (some (.int v))
      else some (update result key (some (.str v))) := by
  obtain ⟨htake, hdrop⟩ := takeWhile_field (v := v) hk
  rw [keyValue, if_neg (by simp)]
  dsimp only
  rw [htake, hdrop, if_neg hv]

/-- The item sets the column, whatever the row is. -/
def Sets (item : Text) (column : Text × PyVal) : Prop :=
  ∀ result, keyValue result item = some (update result column.1 (some column.2))

lemma sets_int (hname : '=' ∉ name.toList) (hpolicy : name.toList ≠ "policy".toList)
    (hint : name.toList ∈ intFields) (v : Int32) :
    Sets (appendField name v) (name.toList, .int v.toInt) := by
  intro result
  rw [appendField, keyValue_field hname (appendInt_ne_nil v)]
  dsimp only
  rw [if_neg hpolicy, if_pos (.inl hint), pyInt_appendInt]
  rfl

lemma sets_policy (v : Int32) :
    Sets (appendField "policy" v) ("kernel_policy".toList, .int v.toInt) := by
  intro result
  rw [appendField, keyValue_field (by decide) (appendInt_ne_nil v)]
  dsimp only
  rw [if_pos rfl, if_pos (.inr rfl), pyInt_appendInt]
  rfl

def assign (columns : List (Text × PyVal)) (result : Row) : Row :=
  columns.foldl (fun result c => update result c.1 (some c.2)) result

lemma foldlM_sets {items : List Text} {columns : List (Text × PyVal)}
    (h : List.Forall₂ Sets items columns) (result : Row) :
    items.foldlM keyValue result = some (assign columns result) := by
  induction h generalizing result with
  | nil => rfl
  | cons hset _ ih =>
    rw [List.foldlM_cons, hset]
    exact ih _

lemma assign_of_notMem {columns : List (Text × PyVal)} (h : k ∉ columns.map Prod.fst) (result : Row)
    : assign columns result k = result k := by
  induction columns generalizing result with
  | nil => rfl
  | cons c columns ih =>
    rw [List.map_cons, List.mem_cons, not_or] at h
    rw [assign, List.foldl_cons]
    exact (ih h.2 _).trans (update_of_ne h.1 ..)

lemma assign_of_mem {columns : List (Text × PyVal)} (hnodup : (columns.map Prod.fst).Nodup)
    {v : PyVal} (h : (k, v) ∈ columns) (result : Row) : assign columns result k = some v := by
  induction columns generalizing result with
  | nil => cases h
  | cons c columns ih =>
    rw [List.map_cons, List.nodup_cons] at hnodup
    rw [assign, List.foldl_cons]
    rcases List.mem_cons.mp h with rfl | h
    · exact (assign_of_notMem hnodup.1 _).trans (update_self ..)
    · exact ih hnodup.2 h _

/-! ### Whole records -/

namespace Record

def columns (r : Record) : List (Text × PyVal) :=
  ("job".toList, .int r.job.toInt) :: ("kind".toList, .str r.kindName.toList) ::
    (r.middle.map fun (name, v) => (name.toList, .int v.toInt)) ++
    [("kernel_response".toList, .int r.kernelResponse.toInt),
      ("kernel_policy".toList, .int r.info.schedPolicy.toInt)]

def middleNames : List String :=
  ["start", "first", "finish", "service", "turnaround", "response", "priority", "queue", "slice",
    "run_ticks", "ready_count", "ready_ticks", "total_ready_time", "wait_count", "schedule_count",
    "create_tick", "first_run_tick"]

lemma map_middle (r : Record) : r.middle.map Prod.fst = middleNames := rfl

variable {r : Record}

lemma mem_middleNames {f : String × Int32} (h : f ∈ r.middle) : f.1 ∈ middleNames := by
  rw [← r.map_middle]
  exact List.mem_map_of_mem h

lemma middleNames_spec : ∀ name ∈ middleNames, '=' ∉ name.toList ∧
    name.toList ≠ "policy".toList ∧ name.toList ∈ intFields ∧
    name.toList ≠ "kernel_response".toList := by
  decide +kernel

lemma plain_of_mem {name : String} (h : name ∈ ["job", "kind=", "io", "mixed", "cpu",
    "kernel_response", "policy"] ++ middleNames) : ∀ c ∈ name.toList, Plain c := by
  have hall : ∀ name ∈ ["job", "kind=", "io", "mixed", "cpu", "kernel_response", "policy"] ++
      middleNames, name.toList.all (fun c => decide (Plain c)) = true := by
    decide +kernel
  exact forall_of_all (hall name h)

def fields (r : Record) : List Text :=
  r.early ++
    [appendField "kernel_response" r.kernelResponse, appendField "policy" r.info.schedPolicy]

lemma kindName_spec (r : Record) : r.kindName.toList ≠ [] ∧ (∀ c ∈ r.kindName.toList, Plain c) := by
  rw [kindName]
  split_ifs <;> exact ⟨by decide, plain_of_mem (by simp)⟩

lemma sets_kind (r : Record) :
    Sets ("kind=".toList ++ r.kindName.toList) ("kind".toList, .str r.kindName.toList) := by
  intro result
  have hkind : "kind=".toList ++ r.kindName.toList =
      "kind".toList ++ '=' :: r.kindName.toList := rfl
  rw [hkind, keyValue_field (by decide) r.kindName_spec.1]
  dsimp only
  rw [if_neg (by decide), if_neg (by decide)]

lemma fields_set (r : Record) : List.Forall₂ Sets r.fields r.columns := by
  rw [fields, early, columns]
  refine .cons (sets_int (by decide) (by decide) (by decide) _) (.cons r.sets_kind ?_)
  refine List.rel_append ?_ (.cons (sets_int (by decide) (by decide) (by decide) _)
    (.cons (sets_policy _) .nil))
  rw [List.forall₂_map_left_iff, List.forall₂_map_right_iff, List.forall₂_same]
  intro f hf
  obtain ⟨h1, h2, h3, -⟩ := middleNames_spec _ (mem_middleNames hf)
  exact sets_int h1 h2 h3 f.2

lemma words_line {ws : List Text} (h : ∀ w ∈ ws, w ≠ [] ∧ ∀ c ∈ w, Plain c) (rest : Text) :
    words isSpace (line ws ++ rest) = ws ++ words isSpace rest := by
  induction ws with
  | nil => rfl
  | cons w ws ih =>
    obtain ⟨hne, hplain⟩ := h w List.mem_cons_self
    rw [line, List.flatMap_cons, List.append_assoc, List.append_assoc, List.singleton_append,
      words_cons_word (fun c hc => (hplain c hc).1) hne (by decide), List.cons_append]
    exact congrArg _ (ih fun v hv => h v (List.mem_cons_of_mem _ hv))

lemma early_plain (r : Record) : ∀ w ∈ r.early, w ≠ [] ∧ ∀ c ∈ w, Plain c := by
  intro w hw
  rw [early, List.mem_cons, List.mem_cons, List.mem_map] at hw
  rcases hw with rfl | rfl | ⟨f, hf, rfl⟩
  · exact ⟨by simp [appendField], plain_appendField (plain_of_mem (by simp)) _⟩
  · refine ⟨by simp, fun c hc => ?_⟩
    exact (List.mem_append.mp hc).elim (plain_of_mem (by simp) c) (r.kindName_spec.2 c)
  · exact ⟨by simp [appendField],
      plain_appendField (plain_of_mem (List.mem_append_right _ (mem_middleNames hf))) _⟩

lemma response_plain (v : Int32) : ∀ c ∈ appendField "kernel_response" v, Plain c :=
  plain_appendField (plain_of_mem (by simp)) v

lemma policy_plain (v : Int32) : ∀ c ∈ appendField "policy" v, Plain c :=
  plain_appendField (plain_of_mem (by simp)) v

lemma appendField_ne_nil (name : String) (v : Int32) : appendField name v ≠ [] := by
  simp [appendField]

lemma words_body (r : Record) : words isSpace r.body = r.fields := by
  rw [body, words_line r.early_plain,
    words_cons_word (fun c hc => (response_plain _ c hc).1) (appendField_ne_nil _ _) (by decide),
    words_cons_word (fun c hc => (policy_plain _ c hc).1) (appendField_ne_nil _ _) (by decide),
    words_nil]
  rfl

def column (name : String) : Text :=
  if name = "policy" then "kernel_policy".toList else name.toList

lemma map_columns (r : Record) : r.columns.map Prod.fst = "job".toList :: "kind".toList ::
    middleNames.map String.toList ++ ["kernel_response".toList, "kernel_policy".toList] := rfl

lemma columns_spec (r : Record) : (r.columns.map Prod.fst).Nodup ∧
    (∀ k ∈ required, k ∈ r.columns.map Prod.fst) ∧ ∀ k ∈ r.columns.map Prod.fst,
      k ∉ ["policy", "run", "experiment_start", "experiment_finish",
        "elapsed"].map String.toList := by
  rw [map_columns]
  decide +kernel

lemma mem_columns (h : (name, v) ∈ r.ints) : (column name, .int v.toInt) ∈ r.columns := by
  rw [ints, List.cons_append, List.mem_cons, List.mem_append] at h
  rw [columns]
  rcases h with h | h | h
  · cases h
    exact List.mem_cons_self
  · have hname : name ≠ "policy" := by
      rintro rfl
      exact (middleNames_spec _ (mem_middleNames h)).2.1 rfl
    rw [column, if_neg hname]
    refine List.mem_cons_of_mem _ (List.mem_cons_of_mem _ (List.mem_append_left _ ?_))
    exact List.mem_map.mpr ⟨_, h, rfl⟩
  · refine List.mem_cons_of_mem _ (List.mem_cons_of_mem _ (List.mem_append_right _ ?_))
    rcases List.mem_cons.mp h with h | h
    · cases h
      exact List.mem_cons_self
    · cases List.mem_singleton.mp h
      exact List.mem_cons_of_mem _ List.mem_cons_self

/-- **A whole record** gives a row with all its integers. -/
lemma row_record (r : Record) : ∃ ρ, row r.body = some ρ ∧
    ∀ name v, (name, v) ∈ r.ints → ρ (column name) = some (.int v.toInt) := by
  refine ⟨assign r.columns fun _ => none, ?_, fun name v h =>
    assign_of_mem r.columns_spec.1 (mem_columns h) _⟩
  rw [row, parseKeyValues, words_body, foldlM_sets r.fields_set]
  refine Option.filter_eq_some_iff.mpr ⟨rfl, ?_⟩
  -- the required keys are columns
  rw [List.all_eq_true]
  intro k hk
  obtain ⟨⟨k, v⟩, hmem, rfl⟩ := List.mem_map.mp (r.columns_spec.2.1 k hk)
  rw [assign_of_mem r.columns_spec.1 hmem]
  rfl

lemma body_ne (r : Record) : ∀ c ∈ r.body, c ≠ 'S' := by
  intro c hc
  rw [body, line] at hc
  simp only [List.mem_append, List.mem_cons, List.mem_flatMap, List.not_mem_nil, or_false] at hc
  rcases hc with ⟨w, hw, hc | rfl⟩ | hc | rfl | hc | rfl
  · exact ((r.early_plain w hw).2 c hc).2
  · decide
  · exact (response_plain _ c hc).2
  · decide
  · exact (policy_plain _ c hc).2
  · decide

lemma job_prefix_body (r : Record) : "job=".toList <+: r.body := by
  have hjob : "job=".toList = "job".toList ++ ['='] := by decide
  rw [body, early, line, List.flatMap_cons, appendField, hjob]
  simp only [List.append_assoc, List.cons_append]
  exact (List.prefix_append_right_inj _).mpr (List.cons_prefix_cons.mpr ⟨rfl, List.nil_prefix⟩)

/-! ### Records that are cut off -/

lemma mem_dropWhile {item : Text} (h : '=' ∈ item) :
    item.dropWhile (· ≠ '=') = '=' :: (item.dropWhile (· ≠ '=')).tail := by
  induction item with
  | nil => cases h
  | cons c item ih =>
    rcases eq_or_ne c '=' with rfl | hc
    · rw [List.dropWhile_cons_of_neg (by decide)]
      rfl
    · rw [List.dropWhile_cons_of_pos (by simpa using hc)]
      exact ih ((List.mem_cons.mp h).resolve_left hc.symm)

/-- A key other than `kernel_policy` comes from an item with that key and a value. -/
lemma exists_of_keyValue {result result' : Row} {item : Text} (hk : k ≠ "kernel_policy".toList)
    (h : keyValue result item = some result') (hnew : result' k ≠ result k) :
    ∃ v, v ≠ [] ∧ item = k ++ '=' :: v := by
  rw [keyValue] at h
  by_cases hmem : '=' ∈ item
  swap
  · rw [if_pos hmem] at h
    cases h
    exact absurd rfl hnew
  rw [if_neg (not_not.mpr hmem)] at h
  dsimp only at h
  by_cases hval : (item.dropWhile (· ≠ '=')).tail = []
  · rw [if_pos hval] at h
    cases h
    exact absurd rfl hnew
  rw [if_neg hval] at h
  -- only the column of the key changes
  have hkey : ∀ v, result' = update result (if item.takeWhile (· ≠ '=') = "policy".toList
      then "kernel_policy".toList else item.takeWhile (· ≠ '=')) v →
      item.takeWhile (· ≠ '=') = k := by
    rintro v rfl
    by_contra hne
    refine hnew (update_of_ne ?_ ..)
    split_ifs
    · exact hk
    · exact Ne.symm hne
  have hk' : item.takeWhile (· ≠ '=') = k := by
    by_cases hint : (if item.takeWhile (· ≠ '=') = "policy".toList then "kernel_policy".toList
        else item.takeWhile (· ≠ '=')) ∈ intFields ∨ (if item.takeWhile (· ≠ '=') = "policy".toList
        then "kernel_policy".toList else item.takeWhile (· ≠ '=')) = "kernel_policy".toList
    · rw [if_pos hint] at h
      obtain ⟨v, -, hv⟩ := Option.map_eq_some_iff.mp h
      exact hkey _ hv.symm
    · rw [if_neg hint] at h
      exact hkey _ (Option.some.inj h).symm
  -- the item is cut at its first `=`
  have hdrop := mem_dropWhile hmem
  refine ⟨_, hval, ?_⟩
  rw [← hk', ← hdrop, List.takeWhile_append_dropWhile]

lemma exists_of_foldlM {items : List Text} {result result' : Row} (hk : k ≠ "kernel_policy".toList)
    (h : items.foldlM keyValue result = some result') (hnew : result' k ≠ result k) :
    ∃ v, v ≠ [] ∧ k ++ '=' :: v ∈ items := by
  induction items generalizing result with
  | nil =>
    cases h
    exact absurd rfl hnew
  | cons item items ih =>
    rw [List.foldlM_cons] at h
    obtain ⟨mid, hmid, hrest⟩ := Option.bind_eq_some_iff.mp h
    by_cases hsame : mid k = result k
    · obtain ⟨v, hv, hmem⟩ := ih hrest (hsame ▸ hnew)
      exact ⟨v, hv, List.mem_cons_of_mem _ hmem⟩
    · obtain ⟨v, hv, rfl⟩ := exists_of_keyValue hk hmid hsame
      exact ⟨v, hv, List.mem_cons_self⟩

lemma early_ne (r : Record) : ∀ w ∈ r.early, ∃ k v, '=' ∉ k ∧ k ≠ "kernel_response".toList ∧
    w = k ++ '=' :: v := by
  intro w hw
  rw [early, List.mem_cons, List.mem_cons, List.mem_map] at hw
  rcases hw with rfl | rfl | ⟨f, hf, rfl⟩
  · exact ⟨"job".toList, _, by decide, by decide, rfl⟩
  · exact ⟨"kind".toList, _, by decide, by decide, rfl⟩
  · obtain ⟨heq, _, _, hne⟩ := middleNames_spec _ (mem_middleNames hf)
    exact ⟨_, _, heq, hne, rfl⟩

/-- The text of a record up to the value of `kernel_response`. -/
def beforeValue (r : Record) : Text := line r.early ++ "kernel_response=".toList

lemma words_beforeValue (r : Record) :
    words isSpace r.beforeValue = r.early ++ ["kernel_response=".toList] := by
  rw [beforeValue, words_line r.early_plain, words_single (forall_of_all (by decide)) (by decide)]

/-- **A record that is cut off** before the value of `kernel_response` is malformed. -/
lemma row_cut {b : Text} (hb : b <+: r.beforeValue) : row b = none := by
  by_contra hne
  obtain ⟨ρ, hρ⟩ := Option.ne_none_iff_exists'.mp hne
  rw [row, Option.filter_eq_some_iff, List.all_eq_true] at hρ
  obtain ⟨hparse, hreq⟩ := hρ
  have hsome : (ρ "kernel_response".toList).isSome = true := hreq _ (by decide)
  obtain ⟨v, hv, hmem⟩ := exists_of_foldlM (k := "kernel_response".toList) (by decide) hparse
    (fun hnone => by rw [hnone] at hsome; cases hsome)
  obtain ⟨w, hw, rest, hrest⟩ := prefix_words hb hmem
  rw [words_beforeValue, List.mem_append, List.mem_singleton] at hw
  rw [List.append_assoc, List.cons_append] at hrest
  rcases hw with hw | rfl
  · -- the item is one of the earlier fields
    obtain ⟨k, v', heq, hk, rfl⟩ := r.early_ne w hw
    have htake := congrArg (List.takeWhile (· ≠ '=')) hrest
    rw [(takeWhile_field (by decide)).1, (takeWhile_field heq).1] at htake
    exact hk htake.symm
  · have hlen := congrArg List.length hrest
    have hlit : "kernel_response=".toList.length = "kernel_response".toList.length + 1 := by decide
    rw [hlit, List.length_append, List.length_cons, List.length_append] at hlen
    exact hv (List.length_eq_zero_iff.mp (by omega))

end Record

end Bench

end Xv6Riscv
