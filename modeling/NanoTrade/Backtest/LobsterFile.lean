import NanoTrade.Backtest.LobsterLifeCycle
import NanoTrade.FromChars

/-!
# A message file as text

`LobsterReplay::run` reads its file line by line and takes every line that is not empty for a row:
six fields between commas, of which the first, the time, is passed over. A field that is no number
of its type is zero.

* `parse_text`: a line that was written from a row is read as this row.
* `file_written`: so the replay of a file that was written from rows is the replay of the rows.
* `file_any`: whatever the file is, the stream is numbered, its updates are in range and of orders
  that it has added, and every line is counted.
-/

namespace NanoTrade

/-! ## Lines -/

namespace LobsterRow

/-- The fields of a line, each as its type is read. -/
def parse (line : List Char) : LobsterRow :=
  let (_, line) := nextField line
  let (typeField, line) := nextField line
  let (oidField, line) := nextField line
  let (sizeField, line) := nextField line
  let (priceField, line) := nextField line
  let (dirField, _) := nextField line
  { type := IntegerType.int32.parse typeField
    orderId := (IntegerType.uint64.parse oidField).toNat
    size := (IntegerType.uint32.parse sizeField).toNat
    price := IntegerType.int64.parse priceField
    direction := IntegerType.int32.parse dirField }

/-- Every field fits its type. -/
structure Fits (row : LobsterRow) : Prop where
  type : IntegerType.int32.Fits row.type
  orderId : IntegerType.uint64.Fits row.orderId
  size : IntegerType.uint32.Fits row.size
  price : IntegerType.int64.Fits row.price
  direction : IntegerType.int32.Fits row.direction

end LobsterRow

/-- A line of a message file: a row, the time in front of it, and what follows the direction, such
as a carriage return or more fields. -/
structure LobsterLine where
  time : List Char
  row : LobsterRow
  tail : List Char
  plain : ',' ∉ time ∧ '\n' ∉ time
  fits : row.Fits
  stops : ∀ c ∈ tail.head?, c.isDigit = false
  ends : '\n' ∉ tail

namespace LobsterLine

open IntegerType

def text (l : LobsterLine) : List Char :=
  l.time ++ ',' :: (write l.row.type ++ ',' :: (write l.row.orderId ++ ',' ::
    (write l.row.size ++ ',' :: (write l.row.price ++ ',' :: (write l.row.direction ++ l.tail)))))

theorem not_mem_write {c : Char} (sign : c ≠ '-') (digit : c.isDigit = false) (n : Int) :
    c ∉ write n := by
  intro mem
  rcases mem_write mem with isSign | isDigit
  · exact sign isSign
  · rw [digit] at isDigit
    cases isDigit

/-- A field that was written, in front of a comma. -/
theorem nextField_write (n : Int) (rest : List Char) :
    nextField (write n ++ ',' :: rest) = (write n, rest) :=
  nextField_append (not_mem_write (by decide) rfl n) rest

theorem parse_field {T : IntegerType} {n : Int} (fits : T.Fits n) : T.parse (write n) = n := by
  have read : T.parse (write n ++ []) = n := parse_write fits fun c mem => by cases mem
  rw [List.append_nil] at read
  exact read

/-- A line is read as the row that it was written from. -/
theorem parse_text (l : LobsterLine) : LobsterRow.parse l.text = l.row := by
  have last : IntegerType.int32.parse (nextField (write l.row.direction ++ l.tail)).1 =
      l.row.direction := by
    have all : ∀ c ∈ write l.row.direction, decide (c ≠ ',') = true := fun c mem =>
      decide_eq_true fun same => not_mem_write (by decide) rfl l.row.direction (same ▸ mem)
    rw [nextField, List.takeWhile_append_of_pos all]
    refine parse_write l.fits.direction fun c mem => ?_
    cases shape : l.tail with
    | nil =>
        rw [shape] at mem
        cases mem
    | cons d rest =>
        rw [shape] at mem
        by_cases comma : d = ','
        · rw [List.takeWhile_cons_of_neg (by simpa using comma)] at mem
          cases mem
        · rw [List.takeWhile_cons_of_pos (by simpa using comma), List.head?_cons] at mem
          exact l.stops c (by rw [shape]; exact mem)
  unfold LobsterRow.parse text
  simp only [nextField_append l.plain.1, nextField_write, parse_field l.fits.type,
    parse_field l.fits.orderId, parse_field l.fits.size, parse_field l.fits.price, last,
    Int.toNat_natCast]

theorem text_ne_nil (l : LobsterLine) : l.text ≠ [] :=
  List.append_ne_nil_of_right_ne_nil _ (List.cons_ne_nil _ _)

theorem newline_not_mem_text (l : LobsterLine) : '\n' ∉ l.text := by
  have number : ∀ n, '\n' ∉ write n := not_mem_write (by decide) rfl
  simp [text, l.plain.2, l.ends, number]

/-- A bid, with a time of day in front and a carriage return behind. -/
def bid : LobsterLine :=
  { time := "34200.017".toList
    row := { type := 1, orderId := 7, size := 10, price := -100, direction := 1 }
    tail := ['\r']
    plain := by decide
    fits := ⟨by decide, by decide, by decide, by decide, by decide⟩
    stops := by simp
    ends := by decide }

end LobsterLine

/-! ## Files -/

namespace LobsterReplay

/-- One turn of the loop of `run`, with the line that it reads. -/
def readLine (tickerId : TickerId) (s : NumberedReplay) (line : List Char) :
    NumberedReplay × List MDPMarketUpdate :=
  if line = [] then (s, []) else NumberedReplay.step tickerId s (LobsterRow.parse line)

/-- The replay of a file. -/
def file (tickerId : TickerId) (text : List Char) : NumberedReplay × List MDPMarketUpdate :=
  runTotal (readLine tickerId) .new (lines text)

/-- The rows of a file. -/
def rows (text : List Char) : List LobsterRow :=
  ((lines text).filter fun line => line ≠ []).map LobsterRow.parse

/-- Lines without a character are passed over, and the others are rows. -/
theorem runTotal_readLine (tickerId : TickerId) (s : NumberedReplay) (ls : List (List Char)) :
    runTotal (readLine tickerId) s ls = runTotal (NumberedReplay.step tickerId) s
      ((ls.filter fun line => line ≠ []).map LobsterRow.parse) := by
  induction ls generalizing s with
  | nil => rfl
  | cons line ls ih =>
      by_cases empty : line = []
      · have idle : readLine tickerId s line = (s, []) := if_pos empty
        rw [runTotal, idle, ih, List.filter_cons_of_neg (by simpa using empty)]
        rfl
      · have reads : readLine tickerId s line =
            NumberedReplay.step tickerId s (LobsterRow.parse line) := if_neg empty
        rw [runTotal, reads, ih, List.filter_cons_of_pos (by simpa using empty), List.map_cons,
          runTotal]

theorem file_eq (tickerId : TickerId) (text : List Char) :
    file tickerId text = runTotal (NumberedReplay.step tickerId) .new (rows text) :=
  runTotal_readLine tickerId .new (lines text)

/-- **A file that was written from rows is replayed as these rows.** -/
theorem file_written (tickerId : TickerId) (ls : List LobsterLine) :
    file tickerId (unlines (ls.map LobsterLine.text)) =
      runTotal (NumberedReplay.step tickerId) .new (ls.map LobsterLine.row) := by
  have noEnds : ∀ line ∈ ls.map LobsterLine.text, '\n' ∉ line := by
    intro line mem
    obtain ⟨l, -, rfl⟩ := List.mem_map.mp mem
    exact l.newline_not_mem_text
  have all : (ls.map LobsterLine.text).filter (fun line => decide (line ≠ [])) =
      ls.map LobsterLine.text := by
    refine List.filter_eq_self.mpr fun line mem => ?_
    obtain ⟨l, -, rfl⟩ := List.mem_map.mp mem
    exact decide_eq_true l.text_ne_nil
  rw [file_eq, rows, lines_unlines noEnds, all, List.map_map]
  exact congrArg (runTotal (NumberedReplay.step tickerId) .new)
    (List.map_congr_left fun l _ => l.parse_text)

/-- The text of a bid, and the replay of a file with this line. -/
theorem file_written_bid :
    LobsterLine.bid.text = "34200.017,1,7,10,-100,1\r".toList ∧
      file 0 (unlines [LobsterLine.bid.text]) =
        runTotal (NumberedReplay.step 0) .new [LobsterLine.bid.row] :=
  ⟨by decide, file_written 0 [LobsterLine.bid]⟩

/-! ## Any file -/

/-- An update that the messages can carry. -/
structure Carries (tickerId : TickerId) (u : MEMarketUpdate) : Prop where
  type : u.type = .ADD ∨ u.type = .MODIFY ∨ u.type = .CANCEL ∨ u.type = .TRADE
  ticker : u.tickerId = tickerId
  slot : u.orderId < ME_MAX_ORDER_IDS
  side : u.side = .BUY ∨ u.side = .SELL
  price : -2 ^ 63 ≤ u.price ∧ u.price < 2 ^ 63
  qty : u.qty < 2 ^ 32
  priority : u.priority = u.orderId

theorem mapType_cases (lobsterType : Int) : mapType lobsterType = .INVALID ∨
    mapType lobsterType = .ADD ∨ mapType lobsterType = .MODIFY ∨ mapType lobsterType = .CANCEL ∨
      mapType lobsterType = .TRADE := by
  unfold mapType
  repeat' split
  all_goals simp

/-- Only a row of a known type emits. -/
theorem mapType_ne_invalid {tickerId : TickerId} {s : LobsterReplay} {row : LobsterRow}
    {u : MEMarketUpdate} (mem : u ∈ (step tickerId s row).2) : mapType row.type ≠ .INVALID := by
  intro unknown
  unfold LobsterReplay.step at mem
  split at mem
  · cases mem
  · cases mem

/-- What a line emits, the messages can carry. -/
theorem Carries.of_mem {tickerId : TickerId} {s : LobsterReplay} {line : List Char}
    {u : MEMarketUpdate} (mem : u ∈ (step tickerId s (LobsterRow.parse line)).2)
    (slot : u.orderId < ME_MAX_ORDER_IDS) : Carries tickerId u := by
  have known := mapType_ne_invalid mem
  obtain ⟨-, place, rfl, -⟩ := mem_step mem
  have price : IntegerType.int64.Fits (LobsterRow.parse line).price :=
    IntegerType.parse_fits _ _
  have qty (text : List Char) : (IntegerType.uint32.parse text).toNat < 2 ^ 32 := by
    have below : IntegerType.uint32.parse text < 2 ^ 32 := (IntegerType.parse_fits _ text).2
    omega
  refine ⟨?_, rfl, slot, ?_, price, qty _, rfl⟩
  · rcases mapType_cases (LobsterRow.parse line).type with invalid | type
    · exact absurd invalid known
    · exact type
  · unfold update
    split
    · exact .inl rfl
    · exact .inr rfl

/-- The rows are counted: they are emitted or skipped, up to one that found no slot. -/
structure Counts (rows : List LobsterRow) (s : LobsterReplay) (out : List MEMarketUpdate) :
    Prop where
  emitted : s.rowsEmitted = out.length
  all : s.stopped = false → s.rowsEmitted + s.rowsSkipped = rows.length
  full : s.stopped = true → ME_MAX_ORDER_IDS ≤ s.nextSlot

theorem Counts.step {rows : List LobsterRow} {s : LobsterReplay} {out : List MEMarketUpdate}
    (counts : Counts rows s out) (tickerId : TickerId) (row : LobsterRow) :
    Counts (rows ++ [row]) (step tickerId s row).1 (out ++ (step tickerId s row).2) := by
  obtain ⟨emitted, all, full⟩ := counts
  have longer : (rows ++ [row]).length = rows.length + 1 := List.length_append
  unfold LobsterReplay.step
  split
  · rename_i stopped
    refine ⟨by rw [List.append_nil]; exact emitted, fun running => ?_, full⟩
    rw [stopped] at running
    cases running
  · rename_i running
    have counted := all (Bool.eq_false_iff.mpr running)
    have skipped : Counts (rows ++ [row]) s.skip.1 (out ++ s.skip.2) := by
      refine ⟨by rw [LobsterReplay.skip, List.append_nil]; exact emitted, fun _ => ?_, full⟩
      rw [longer, ← counted]
      rfl
    have pushed : ∀ {t : LobsterReplay} (slot : OrderId), t.rowsEmitted = s.rowsEmitted →
        t.rowsSkipped = s.rowsSkipped → t.stopped = s.stopped →
        Counts (rows ++ [row]) (emit tickerId t row slot).1
          (out ++ (emit tickerId t row slot).2) := by
      intro t slot sameEmitted sameSkipped sameStopped
      refine ⟨?_, fun _ => ?_, fun stopped => ?_⟩
      · show t.rowsEmitted + 1 = (out ++ [update tickerId row slot]).length
        rw [List.length_append, sameEmitted, emitted]
        rfl
      · show t.rowsEmitted + 1 + t.rowsSkipped = _
        rw [longer, ← counted, sameEmitted, sameSkipped]
        omega
      · have halted : t.stopped = true := stopped
        rw [sameStopped] at halted
        exact absurd halted running
    split
    · exact skipped
    · split
      · exact pushed _ rfl rfl rfl
      · split
        · exact skipped
        · split
          · rename_i noSlot
            refine ⟨by rw [List.append_nil]; exact emitted, fun going => ?_, fun _ => noSlot⟩
            cases going
          · exact pushed _ rfl rfl rfl

/-- The lines of a file, read to their end or to one that finds no slot. -/
structure Reads (tickerId : TickerId) (rows : List LobsterRow) (s : LobsterReplay)
    (out : List MDPMarketUpdate) : Prop where
  numbers : out.map MDPMarketUpdate.seqNum = List.range' 1 out.length
  carries : ∀ m ∈ out, Carries tickerId m.meMarketUpdate
  changes : ∀ front m back, out = front ++ m :: back →
    m.meMarketUpdate.type = .MODIFY ∨ m.meMarketUpdate.type = .CANCEL →
      occupied (front.map MDPMarketUpdate.meMarketUpdate) m.meMarketUpdate.orderId = true
  counts : Counts rows s (out.map MDPMarketUpdate.meMarketUpdate)

theorem run_counts (tickerId : TickerId) (rows : List LobsterRow) :
    Counts rows (runTotal (step tickerId) .new rows).1 (updates tickerId rows) := by
  unfold updates
  induction rows using List.reverseRecOn with
  | nil => exact ⟨rfl, fun _ => rfl, fun stopped => by cases stopped⟩
  | append_singleton rows row ih =>
      rw [runTotal_concat]
      exact ih.step tickerId row

/-- Every update is of one of the rows, which emits it. -/
theorem exists_of_mem_updates {tickerId : TickerId} {rows : List LobsterRow} {u : MEMarketUpdate}
    (mem : u ∈ updates tickerId rows) : ∃ s, ∃ row ∈ rows, u ∈ (step tickerId s row).2 := by
  unfold updates at mem
  induction rows using List.reverseRecOn with
  | nil => cases mem
  | append_singleton rows row ih =>
      rw [runTotal_concat] at mem
      rcases List.mem_append.mp mem with earlier | now
      · obtain ⟨s, row', rowMem, emitted⟩ := ih earlier
        exact ⟨s, row', List.mem_append_left _ rowMem, emitted⟩
      · exact ⟨_, row, List.mem_append_right _ (List.mem_singleton_self row), now⟩

/-- **Whatever the file is**, the updates of its replay are numbered from 1 on, the messages can
carry them, they change only orders that are in the stream, and every line is accounted for. -/
theorem file_any (tickerId : TickerId) (text : List Char) :
    Reads tickerId (rows text) (file tickerId text).1.replay (file tickerId text).2 := by
  obtain ⟨state, stream, numbers⟩ := run_numbered tickerId (rows text)
  obtain ⟨-, follows, -⟩ := run_follows_iff tickerId (rows text)
  rw [file_eq, state]
  rw [← stream, behind_iff] at follows
  have changes : ∀ front m back, published tickerId (rows text) = front ++ m :: back →
      m.meMarketUpdate.orderId < ME_MAX_ORDER_IDS ∧
        (m.meMarketUpdate.type = .MODIFY ∨ m.meMarketUpdate.type = .CANCEL →
          occupied (front.map MDPMarketUpdate.meMarketUpdate) m.meMarketUpdate.orderId = true) := by
    intro front m back shape
    refine follows _ _ (back.map MDPMarketUpdate.meMarketUpdate) ?_
    rw [shape, List.map_append, List.map_cons]
  refine ⟨numbers, fun m mem => ?_, fun front m back shape => (changes front m back shape).2, ?_⟩
  · have inStream : m.meMarketUpdate ∈ updates tickerId (rows text) :=
      stream ▸ List.mem_map_of_mem mem
    obtain ⟨s, row, rowMem, emitted⟩ := exists_of_mem_updates inStream
    obtain ⟨line, -, rfl⟩ := List.mem_map.mp rowMem
    obtain ⟨front, back, shape⟩ := List.append_of_mem mem
    exact .of_mem emitted (changes front m back shape).1
  · show Counts _ _ ((published tickerId (rows text)).map _)
    rw [stream]
    exact run_counts tickerId (rows text)

end LobsterReplay

end NanoTrade
