import Xv6Riscv.Bench.Parser

/-!
Benchmark records of several processes on one console.

Every process writes its record with one `write`, but `consolewrite` sends it in pieces of 32
characters, between which other processes send theirs. The parser takes what lies between two
markers for one record, and the marker is in the first piece.

* `Calm`: no record begins while another one is only partly sent, unless the value of its
  `kernel_response` is still to come.
* `parse_output_faithful`: the parser then fails or returns every record with all its integers.
* `late_piece_accepted`: without that condition a row of the wrong integers is returned.
-/

namespace Xv6Riscv

namespace Bench

open Split

/-- The line `main` writes when all jobs are finished. -/
def endLine (start finish : Int32) : Text :=
  "SCHEDBENCH_END start=".toList ++ appendInt start ++
    " finish=".toList ++ appendInt finish ++ ['\n']

lemma endLine_ne (start finish : Int32) : ∃ w,
    endLine start finish = 'S' :: ("CHEDBENCH_".toList ++ w) ∧ ∀ c ∈ w, c ≠ 'S' := by
  have hend : "SCHEDBENCH_END start=".toList =
      'S' :: ("CHEDBENCH_".toList ++ "END start=".toList) := by decide
  refine ⟨"END start=".toList ++ (appendInt start ++ (" finish=".toList ++ (appendInt finish ++
    ['\n']))), ?_, ?_⟩
  · delta endLine
    simp only [hend, List.append_assoc, List.cons_append]
  · have hint : ∀ v, ∀ c ∈ appendInt v, c ≠ 'S' := by
      intro v c hc
      rcases mem_appendInt hc with rfl | hc
      · decide
      · exact (plain_of_isDigit hc).2
    have hlit : ∀ c ∈ "END start=".toList ++ " finish=".toList ++ ['\n'], c ≠ 'S' :=
      forall_of_all (by decide)
    intro c hc
    simp only [List.mem_append] at hc hlit
    rcases hc with hc | hc | hc | hc | hc
    · exact hlit c (.inl (.inl hc))
    · exact hint _ c hc
    · exact hlit c (.inl (.inr hc))
    · exact hint _ c hc
    · exact hlit c (.inr hc)

lemma stops_endLine (start finish : Int32) : stops (endLine start finish) = true := by
  obtain ⟨w, hw, -⟩ := endLine_ne start finish
  have hmark : 'S' :: ("CHEDBENCH_".toList ++ w) = "SCHEDBENCH".toList ++ '_' :: w := rfl
  rw [hw, hmark, stops, dropPrefix_append]
  simp

lemma results_endLine (start finish : Int32) : results (endLine start finish) = [] := by
  obtain ⟨w, hw, hne⟩ := endLine_ne start finish
  have hmark : 'S' :: ("CHEDBENCH_".toList ++ w) = "SCHEDBENCH".toList ++ '_' :: w := rfl
  have hopens : opens ('S' :: ("CHEDBENCH_".toList ++ w)) = none := by
    rw [hmark, opens, dropPrefix_append]
    dsimp only
    rw [List.takeWhile_cons_of_neg (by decide)]
    exact if_neg fun h => h.1 rfl
  have hlit : ∀ c ∈ "CHEDBENCH_".toList, c ≠ 'S' := forall_of_all (by decide)
  rw [hw, results_cons, hopens]
  exact results_of_ne fun c hc => (List.mem_append.mp hc).elim (hlit c) (hne c)

/-! ### Rows from records -/

section Rows

variable {output policy : Text} {run : ℤ}

/-- **A malformed record** makes the parser fail. -/
lemma parseOutput_malformed (h : ∃ t ∈ results output, row t = none) :
    ∃ e, parseOutput output policy run = .error e := by
  obtain ⟨t, ht, hrow⟩ := h
  obtain ⟨t', rest, hbad⟩ : ∃ t' rest, (results output).filter (fun t => (row t).isNone) =
      t' :: rest :=
    List.exists_cons_of_ne_nil (List.ne_nil_of_mem (List.mem_filter.mpr ⟨ht, by rw [hrow]; rfl⟩))
  rw [parseOutput, hbad]
  dsimp only
  split
  · exact ⟨_, rfl⟩
  · exact ⟨_, rfl⟩
  · exact ⟨_, rfl⟩

/-- If all records are well formed, the parser returns their rows, unless something else is
missing. -/
lemma parseOutput_rows {rows : List Row} (h : (results output).map row = rows.map some) :
    (∃ e, parseOutput output policy run = .error e) ∨
      ∃ start finish, parseOutput output policy run =
        .ok (rows.map (withRun policy run start finish)) := by
  have hrows : (results output).filterMap row = rows := by
    have hid := congrArg (List.filterMap id) h
    rwa [List.filterMap_map, List.filterMap_map, Function.id_comp, Function.id_comp,
      List.filterMap_some] at hid
  have hgood : (results output).filter (fun t => (row t).isNone) = [] := by
    rw [List.filter_eq_nil_iff]
    intro t ht
    have hmem : row t ∈ rows.map some := h ▸ List.mem_map_of_mem ht
    obtain ⟨ρ, -, hρ⟩ := List.mem_map.mp hmem
    rw [← hρ]
    exact Bool.false_ne_true
  rw [parseOutput, hrows, hgood]
  dsimp only
  split
  · exact .inl ⟨_, rfl⟩
  · exact .inl ⟨_, rfl⟩
  · exact .inr ⟨_, _, rfl⟩

end Rows

/-! ### Calm streams -/

namespace Record

/-- The place in the text of a record where the value of `kernel_response` begins. -/
def valueStart (r : Record) : ℕ := "SCHEDBENCH ".toList.length + r.beforeValue.length

lemma beforeValue_prefix (r : Record) : r.beforeValue <+: r.body := by
  have hname : "kernel_response=".toList = "kernel_response".toList ++ ['='] := by decide
  rw [beforeValue, body, appendField, hname]
  refine (List.prefix_append_right_inj _).mpr ?_
  rw [List.append_assoc]
  exact (List.prefix_append_right_inj _).mpr (List.cons_prefix_cons.mpr ⟨rfl, List.nil_prefix⟩)

lemma take_printResult (r : Record) (n : ℕ) :
    r.printResult.take (pieceSize * (n + 1)) =
      "SCHEDBENCH ".toList ++ r.body.take (pieceSize * (n + 1) - 11) := by
  have hlen : "SCHEDBENCH ".toList.length = 11 := by decide
  rw [printResult_eq, List.take_append, hlen, List.take_of_length_le]
  rw [hlen, pieceSize]
  omega

lemma job_prefix_take (r : Record) (n : ℕ) :
    "job=".toList <+: r.body.take (pieceSize * (n + 1) - 11) := by
  rw [List.prefix_take_iff]
  refine ⟨r.job_prefix_body, ?_⟩
  have hlen : "job=".toList.length = 4 := by decide
  rw [hlen, pieceSize]
  omega

lemma pieceCount_pos (r : Record) : 0 < pieceCount r.printResult := by
  have hlen : "SCHEDBENCH ".toList.length = 11 := by decide
  rw [pieceCount, printResult_eq, List.length_append, hlen, pieceSize]
  omega

lemma take_cut {r : Record} {n : ℕ} (h : pieceSize * (n + 1) ≤ r.valueStart) :
    r.body.take (pieceSize * (n + 1) - 11) <+: r.beforeValue := by
  have hlen : "SCHEDBENCH ".toList.length = 11 := by decide
  rw [valueStart, hlen] at h
  refine List.prefix_of_prefix_length_le (List.take_prefix ..) r.beforeValue_prefix ?_
  exact (List.length_take_le ..).trans (by omega)

lemma stops_first (r : Record) (rest : Text) : stops (piece r.printResult 0 ++ rest) = true := by
  have hmark : "SCHEDBENCH ".toList = "SCHEDBENCH".toList ++ [' '] := by decide
  have hpiece : piece r.printResult 0 = r.printResult.take (pieceSize * (0 + 1)) := rfl
  rw [hpiece, take_printResult, hmark, List.append_assoc, List.append_assoc, stops,
    dropPrefix_append]
  simp only [List.singleton_append, Bool.or_eq_true]
  exact .inr (.inl (by decide))

end Record

section Calm

variable {ι : Type*} [DecidableEq ι] {rec : ι → Record} {sent : ι → ℕ} {order : List ι}

def texts (rec : ι → Record) (i : ι) : Text := (rec i).printResult

/-- **No record begins while another one is partly sent**, unless the value of its `kernel_response`
is still to come. -/
def Calm (rec : ι → Record) (sent : ι → ℕ) (order : List ι) : Prop :=
  ∀ pre k post, order = pre ++ k :: post → sentAfter sent pre k = 0 → ∀ i,
    sentAfter sent pre i = pieceCount (texts rec i) ∨
      pieceSize * sentAfter sent pre i ≤ (rec i).valueStart

/-- Every record is sent as a whole or not at all, and the rest is to come. -/
structure Settled (rec : ι → Record) (sent : ι → ℕ) (order : List ι) : Prop where
  whole : ∀ i, sent i = 0 ∨ sent i = pieceCount (texts rec i)
  rest : ∀ i, sent i + order.count i = pieceCount (texts rec i)
  calm : Calm rec sent order

variable {i : ι}

lemma Settled.unsent (h : Settled rec sent order) (hi : i ∈ order) : sent i = 0 := by
  refine (h.whole i).resolve_right fun hw => ?_
  have hrest := h.rest i
  have hpos := List.count_pos_iff.mpr hi
  omega

omit [DecidableEq ι] in
/-- The turns of the record that begins, up to the first turn of another one. -/
lemma exists_replicate (i : ι) (order : List ι) : ∃ m rest,
    i :: order = List.replicate (m + 1) i ++ rest ∧ ∀ k l, rest = k :: l → k ≠ i := by
  induction order with
  | nil => exact ⟨0, [], rfl, by rintro k l ⟨⟩⟩
  | cons j order ih =>
    rcases eq_or_ne j i with rfl | hji
    · obtain ⟨m, rest, heq, hrest⟩ := ih
      exact ⟨m + 1, rest, by rw [List.replicate_succ, List.cons_append, ← heq], hrest⟩
    · refine ⟨0, j :: order, rfl, ?_⟩
      rintro k l ⟨⟩
      exact hji

lemma sentAfter_append (sent : ι → ℕ) (order order' : List ι) :
    sentAfter sent (order ++ order') = sentAfter (sentAfter sent order) order' := by
  induction order generalizing sent with
  | nil => rfl
  | cons i order ih => exact ih _

lemma sentAfter_replicate (sent : ι → ℕ) (n : ℕ) (i k : ι) :
    sentAfter sent (List.replicate n i) k = if k = i then sent k + n else sent k := by
  rw [sentAfter_eq, List.count_replicate]
  rcases eq_or_ne k i with rfl | hki
  · rw [if_pos rfl, if_pos (by simp)]
  · rw [if_neg hki, if_neg (by simpa using hki.symm), Nat.add_zero]

lemma Settled.next {m : ℕ} {rest : List ι} (h : Settled rec sent (List.replicate (m + 1) i ++ rest))
    (hm : m + 1 = pieceCount (texts rec i)) (hi : sent i = 0) :
    Settled rec (sentAfter sent (List.replicate (m + 1) i)) rest where
  whole k := by
    rw [sentAfter_replicate]
    split_ifs with hk
    · subst hk
      exact .inr (by rw [hi, Nat.zero_add, hm])
    · exact h.whole k
  rest k := by
    rw [sentAfter_eq, Nat.add_assoc, ← List.count_append]
    exact h.rest k
  calm pre k post heq hk j := by
    have hcalm := h.calm (List.replicate (m + 1) i ++ pre) k post (by rw [heq, List.append_assoc])
    rw [sentAfter_append] at hcalm
    exact hcalm hk j

lemma Settled.stops_next {m : ℕ} {rest : List ι}
    (h : Settled rec sent (List.replicate (m + 1) i ++ rest)) (hrest : ∀ k l, rest = k :: l → k ≠ i)
    (start finish : Int32) :
    stops (stream (texts rec) (sentAfter sent (List.replicate (m + 1) i)) rest ++
      endLine start finish) = true := by
  cases rest with
  | nil => exact stops_endLine start finish
  | cons k l =>
    have hk : sent k = 0 := h.unsent (List.mem_append_right _ List.mem_cons_self)
    rw [stream, sentAfter_replicate, if_neg (hrest k l rfl), hk, List.append_assoc]
    exact (rec k).stops_first _

lemma endLine_ne_nil (start finish : Int32) : endLine start finish ≠ [] := by
  obtain ⟨w, hw, -⟩ := endLine_ne start finish
  exact hw ▸ List.cons_ne_nil _ _

/-- **The records of a calm stream.** The induction is on the records in the order in which they
begin: the text up to the next marker is a whole record, or one that is cut off too early. -/
lemma settled_results (start finish : Int32) : ∀ {sent : ι → ℕ} {order : List ι},
    Settled rec sent order →
    (∃ t ∈ results (stream (texts rec) sent order ++ endLine start finish), row t = none) ∨
      ∃ l : List ι, l.Nodup ∧ (∀ i, i ∈ l ↔ sent i = 0) ∧
        results (stream (texts rec) sent order ++ endLine start finish) =
          l.map fun i => (rec i).body
  | sent, [], h => by
    refine .inr ⟨[], List.nodup_nil, fun i => ?_, results_endLine start finish⟩
    have hrest := h.rest i
    have hpos := (rec i).pieceCount_pos
    rw [List.count_nil, texts] at hrest
    simp only [List.not_mem_nil, false_iff]
    omega
  | sent, i :: order, h => by
    have hi : sent i = 0 := h.unsent List.mem_cons_self
    obtain ⟨m, rest, heq, hne⟩ := exists_replicate i order
    rw [heq] at h ⊢
    have hstops := h.stops_next hne start finish
    -- the text up to the next marker
    have hresults : results (stream (texts rec) sent (List.replicate (m + 1) i ++ rest) ++
        endLine start finish) = (rec i).body.take (pieceSize * (m + 1) - 11) ::
        results (stream (texts rec) (sentAfter sent (List.replicate (m + 1) i)) rest ++
          endLine start finish) := by
      have htake : (texts rec i).take (pieceSize * sent i) ++ _ = _ :=
        take_append_stream (m + 1) sent i
      rw [hi, Nat.mul_zero, List.take_zero, List.nil_append, Nat.zero_add, texts,
        Record.take_printResult] at htake
      rw [stream_append, htake, List.append_assoc, List.append_assoc]
      exact results_marker (fun c hc => (rec i).body_ne c (List.mem_of_mem_take hc))
        ((rec i).job_prefix_take m) (by simp [endLine_ne_nil]) hstops
    rw [hresults]
    by_cases hm : m + 1 = pieceCount (texts rec i)
    · -- a whole record
      have hbody : (rec i).body.take (pieceSize * (m + 1) - 11) = (rec i).body := by
        have hall := take_pieceCount (texts rec i)
        rw [← hm, texts, Record.take_printResult, Record.printResult_eq] at hall
        exact List.append_cancel_left hall
      rw [hbody]
      have hlen : rest.length < (i :: order).length := by
        rw [heq, List.length_append, List.length_replicate]
        omega
      rcases settled_results start finish (h.next hm hi) with ⟨t, ht, hrow⟩ | ⟨l, hl, hmem, hl'⟩
      · exact .inl ⟨t, List.mem_cons_of_mem _ ht, hrow⟩
      · have hsent : ∀ k, sentAfter sent (List.replicate (m + 1) i) k = 0 ↔
            k ≠ i ∧ sent k = 0 := by
          intro k
          rw [sentAfter_replicate]
          split_ifs with hk
          · simp [hk]
          · simp [hk]
        refine .inr ⟨i :: l, ?_, fun k => ?_, by rw [hl', List.map_cons]⟩
        · refine List.nodup_cons.mpr ⟨fun hil => ?_, hl⟩
          exact ((hsent i).mp ((hmem i).mp hil)).1 rfl
        · rw [List.mem_cons, hmem, hsent]
          rcases eq_or_ne k i with rfl | hki
          · simp [hi]
          · simp [hki]
    · -- another record begins, so this one is cut off before the value of `kernel_response`
      refine .inl ⟨_, List.mem_cons_self, Record.row_cut (r := rec i) (Record.take_cut ?_)⟩
      cases rest with
      | nil =>
        have hrest := h.rest i
        rw [hi, List.append_nil, List.count_replicate_self, Nat.zero_add] at hrest
        exact absurd hrest hm
      | cons k l =>
        have hk : sentAfter sent (List.replicate (m + 1) i) k = 0 := by
          rw [sentAfter_replicate, if_neg (hne k l rfl)]
          exact h.unsent (List.mem_append_right _ List.mem_cons_self)
        have hcalm := h.calm _ k l rfl hk i
        rw [sentAfter_replicate, if_pos rfl, hi, Nat.zero_add] at hcalm
        exact hcalm.resolve_left hm
termination_by _ order => order.length
decreasing_by exact hlen

/-- Every row is one of the records, with all integers that were printed, and every record has one
row. -/
def Faithful (rec : ι → Record) (rows : List Row) : Prop :=
  ∃ l : List ι, l.Nodup ∧ (∀ i, i ∈ l) ∧
    List.Forall₂ (fun i ρ => ∀ name v, (name, v) ∈ (rec i).ints →
      ρ (Record.column name) = some (.int v.toInt)) l rows

lemma withRun_column {r : Record} {name : String} {v : Int32} (h : (name, v) ∈ r.ints)
    (policy : Text) (run start finish : ℤ) (ρ : Row) :
    withRun policy run start finish ρ (Record.column name) = ρ (Record.column name) := by
  have hnot := r.columns_spec.2.2 _ (List.mem_map_of_mem (Record.mem_columns h))
  simp only [List.map_cons, List.map_nil, List.mem_cons, List.not_mem_nil, or_false, not_or] at hnot
  obtain ⟨h1, h2, h3, h4, h5⟩ := hnot
  rw [withRun, Function.update_of_ne h5, Function.update_of_ne h4, Function.update_of_ne h3,
    Function.update_of_ne h2, Function.update_of_ne h1]

/-- **The parser of a calm stream.** If no record begins while another one is partly sent, unless
the value of its `kernel_response` is still to come, the parser fails or returns one row for every
record, with all integers that were printed. In other streams it can accept a record that is cut,
with a number that was not printed, as in `late_piece_accepted`. It need not: a record of which only
the newline comes late is read as it was printed, so the condition is sufficient and not
necessary. -/
theorem parse_output_faithful {rec : ι → Record} {order : List ι}
    (horder : Interleaving (texts rec) order) (hcalm : Calm rec (fun _ => 0) order)
    (start finish : Int32) (policy : Text) (run : ℤ) :
    (∃ e, parseOutput (stream (texts rec) (fun _ => 0) order ++ endLine start finish) policy run =
        .error e) ∨
      ∃ rows, parseOutput (stream (texts rec) (fun _ => 0) order ++ endLine start finish)
          policy run = .ok rows ∧ Faithful rec rows := by
  have hsettled : Settled rec (fun _ => 0) order :=
    ⟨fun _ => .inl rfl, fun i => (Nat.zero_add _).trans (horder i), hcalm⟩
  rcases settled_results start finish hsettled with hbad | ⟨l, hl, hmem, hresults⟩
  · exact .inl (parseOutput_malformed hbad)
  · choose ρ hrow hints using fun i => (rec i).row_record
    have hrows : (results (stream (texts rec) (fun _ => 0) order ++ endLine start finish)).map row =
        (l.map ρ).map some := by
      rw [hresults, List.map_map, List.map_map]
      exact List.map_congr_left fun i _ => hrow i
    have hparse : (∃ e, parseOutput _ policy run = .error e) ∨ _ := parseOutput_rows hrows
    rcases hparse with herr | ⟨s, f, hok⟩
    · exact .inl herr
    · refine .inr ⟨_, hok, l, hl, fun i => (hmem i).mpr rfl, ?_⟩
      rw [List.map_map, List.forall₂_map_right_iff, List.forall₂_same]
      intro i _ name v hv
      exact (withRun_column hv ..).trans (hints i name v hv)

end Calm

/-! ### A late piece -/

/-- The record of a job that waits for 10 ticks. -/
def tenTicks (job : Int32) : Record where
  job := job
  kind := 0
  start := 5
  first := 15
  finish := 65
  work := 4
  info := ⟨10, 0, 1, 5, 1, 0, 10, 0, 1, 5, 15, 1⟩

def twoJobs (second : Bool) : Record := tenTicks (if second then 1 else 0)

/-- One record is sent after the other. -/
def calmOrder : List Bool := List.replicate 9 false ++ List.replicate 9 true

lemma calmOrder_calm : Interleaving (texts twoJobs) calmOrder ∧
    Calm twoJobs (fun _ => 0) calmOrder := by
  rw [Interleaving]
  have hturns : (∀ i, calmOrder.count i = pieceCount (texts twoJobs i)) ∧
      ∀ n < calmOrder.length, ∀ k, calmOrder[n]? = some k →
      sentAfter (fun _ => 0) (calmOrder.take n) k = 0 → ∀ i,
      sentAfter (fun _ => 0) (calmOrder.take n) i = pieceCount (texts twoJobs i) ∨
        pieceSize * sentAfter (fun _ => 0) (calmOrder.take n) i ≤ (twoJobs i).valueStart := by
    decide +kernel
  refine ⟨hturns.1, fun pre k post heq => ?_⟩
  have hturn := hturns.2 pre.length (by simp [heq]) k (by simp [heq])
  rwa [heq, List.take_left] at hturn

theorem parse_output_faithful_two_jobs :
    Interleaving (texts twoJobs) calmOrder ∧ Calm twoJobs (fun _ => 0) calmOrder ∧
      ((∃ e, parseOutput (stream (texts twoJobs) (fun _ => 0) calmOrder ++ endLine 4 70)
          "rr".toList 1 = .error e) ∨
        ∃ rows, parseOutput (stream (texts twoJobs) (fun _ => 0) calmOrder ++ endLine 4 70)
          "rr".toList 1 = .ok rows ∧ Faithful twoJobs rows) := by
  obtain ⟨horder, hcalm⟩ := calmOrder_calm
  exact ⟨horder, hcalm, parse_output_faithful horder hcalm 4 70 _ 1⟩

/-- The last piece of the first record is sent after the second record. -/
def lateOrder : List Bool :=
  List.replicate 8 false ++ List.replicate 9 true ++ [false]

/-- **A record with a late piece is accepted**: `kernel_response` is `1` in its row, though `10` was
printed. -/
theorem late_piece_accepted : Interleaving (texts twoJobs) lateOrder ∧
    (¬ ∃ e, parseOutput (stream (texts twoJobs) (fun _ => 0) lateOrder ++ endLine 4 70)
        "rr".toList 1 = .error e) ∧
    ¬ ∃ rows, parseOutput (stream (texts twoJobs) (fun _ => 0) lateOrder ++ endLine 4 70)
        "rr".toList 1 = .ok rows ∧ Faithful twoJobs rows := by
  have hparse : (parseOutput (stream (texts twoJobs) (fun _ => 0) lateOrder ++ endLine 4 70)
      "rr".toList 1).toOption.map (fun rows => rows.map fun ρ => ρ "kernel_response".toList) =
      some [some (.int 1), some (.int 10)] := by
    decide +kernel
  refine ⟨by rw [Interleaving]; decide +kernel, ?_, ?_⟩
  · rintro ⟨e, he⟩
    rw [he] at hparse
    cases hparse
  · rintro ⟨rows, hok, l, -, -, hrows⟩
    rw [hok] at hparse
    obtain ⟨ρ, rest, rfl⟩ : ∃ ρ rest, rows = ρ :: rest :=
      List.exists_cons_of_ne_nil fun h => by rw [h] at hparse; cases hparse
    have hone : ρ "kernel_response".toList = some (.int 1) :=
      (List.cons.inj (Option.some.inj hparse)).1
    cases hrows with
    | @cons i _ _ _ hi _ =>
      have hten : ρ "kernel_response".toList = some (.int (twoJobs i).kernelResponse.toInt) :=
        hi "kernel_response" _ (by rw [Record.ints]; simp)
      rw [hone] at hten
      cases i <;> exact absurd hten (by decide +kernel)

end Bench

end Xv6Riscv
