import GitlabRunner.ActionRuns
import GitlabRunner.Utf8Runes

/-!
# The trace buffer

`helpers/trace/buffer.go` receives the job output through a pipe.  A single
goroutine decodes it rune by rune, appends every rune to the log and decides
after each one how much of the log may be published: text that could still
become a masked value is held back, a completed masked value is replaced, and
reaching the size limit ends the log.

Every byte of the log carries a ghost mark that tells whether it was copied from
the input or inserted by the buffer.  No operation reads the mark.
-/

namespace GitlabRunner.Trace

open List Utf8

inductive Origin where
  | copied
  | inserted
  deriving DecidableEq, Repr

structure LogByte where
  byte : UInt8
  origin : Origin
  deriving DecidableEq, Repr

def bytesOf (cells : List LogByte) : List UInt8 :=
  cells.map LogByte.byte

def copied (bytes : List UInt8) : List LogByte :=
  bytes.map (⟨·, .copied⟩)

def inserted (text : String) : List LogByte :=
  (encode text.toList).map (⟨·, .inserted⟩)

@[simp]
theorem bytesOf_append (first second : List LogByte) :
    bytesOf (first ++ second) = bytesOf first ++ bytesOf second :=
  map_append

@[simp]
theorem bytesOf_copied (bytes : List UInt8) : bytesOf (copied bytes) = bytes := by
  simp [bytesOf, copied, Function.comp_def]

@[simp]
theorem copied_append (first second : List UInt8) :
    copied (first ++ second) = copied first ++ copied second :=
  map_append

/-- The mask tree, as far as its `Search` can tell: the keys added to it.  A key
added twice is one leaf of the trie, and the empty key reaches no leaf. -/
structure MaskTree where
  keys : List (List UInt8)
  nodup : keys.Nodup
  nonempty : [] ∉ keys

variable {tree : MaskTree}

namespace MaskTree

def new : MaskTree where
  keys := []
  nodup := .nil
  nonempty := not_mem_nil

def add (tree : MaskTree) (key : List UInt8) : MaskTree :=
  if fresh : key = [] ∨ key ∈ tree.keys then tree
  else
    { keys := key :: tree.keys
      nodup := nodup_cons.mpr ⟨fun member => fresh (.inr member), tree.nodup⟩
      nonempty := by
        intro member
        rcases mem_cons.mp member with isKey | inTree
        · exact fresh (.inl isKey.symm)
        · exact tree.nonempty inTree }

/-- `Trie.Search`: the added keys that start with `part`. -/
def search (tree : MaskTree) (part : List UInt8) : List (List UInt8) :=
  tree.keys.filter (part.isPrefixOf ·)

theorem mem_keys_add {key other : List UInt8} :
    other ∈ (tree.add key).keys ↔ other ∈ tree.keys ∨ other = key ∧ key ≠ [] := by
  fun_cases add tree key with
  | case1 known =>
    constructor
    · exact .inl
    · rintro (member | ⟨rfl, nonempty⟩)
      · exact member
      · exact known.resolve_left nonempty
  | case2 fresh =>
    have nonempty : key ≠ [] := fun empty => fresh (.inl empty)
    simp only [mem_cons, nonempty, ne_eq, not_false_eq_true, and_true]
    exact or_comm

theorem mem_keys_foldl_add {values : List (List UInt8)} {key : List UInt8} :
    key ∈ (values.foldl add tree).keys ↔ key ∈ tree.keys ∨ key ∈ values ∧ key ≠ [] := by
  induction values generalizing tree with
  | nil => simp
  | cons value values ih =>
    have same : key = value ∧ value ≠ [] ↔ key = value ∧ key ≠ [] :=
      and_congr_right fun isValue => by rw [isValue]
    rw [foldl_cons, ih, mem_keys_add, mem_cons, or_and_right, same, or_assoc]

theorem mem_search {part key : List UInt8} :
    key ∈ tree.search part ↔ key ∈ tree.keys ∧ part <+: key := by
  simp [search, mem_filter]

end MaskTree

/-- The state of a `Buffer` with its `process` goroutine.  `unread` holds the
bytes that were written to the pipe and are not decoded yet, `closed` says that
the writing end was closed, `stopped` is the local variable of `process` and
`finished` that the `finish` channel was closed. -/
structure Buffer where
  log : List LogByte
  logMaskedSize : Nat
  bytesLimit : Int
  maskTree : Option MaskTree
  unread : List UInt8
  closed : Bool
  stopped : Bool
  finished : Bool
  masked_le : logMaskedSize ≤ log.length

def maskedText : String := "[MASKED]"

def defaultBytesLimit : Int := 4 * 1024 * 1024

def ansiBoldRed : String := "\x1b[31;1m"

def ansiReset : String := "\x1b[0;m"

namespace Buffer

def new : Buffer where
  log := []
  logMaskedSize := 0
  bytesLimit := defaultBytesLimit
  maskTree := none
  unread := []
  closed := false
  stopped := false
  finished := false
  masked_le := Nat.le_refl 0

def setMasked (buffer : Buffer) (values : List (List UInt8)) : Buffer :=
  { buffer with
    maskTree :=
      if values.length = 0 then none
      else some (values.foldl MaskTree.add MaskTree.new) }

def setLimit (buffer : Buffer) (size : Int) : Buffer :=
  { buffer with bytesLimit := size }

def limitExceededMessage (buffer : Buffer) : String :=
  "\n" ++ ansiBoldRed ++ "Job's log exceeded limit of " ++
    toString buffer.bytesLimit ++ " bytes." ++ ansiReset ++ "\n"

def published (buffer : Buffer) : List LogByte :=
  buffer.log.take buffer.logMaskedSize

def window (buffer : Buffer) : List LogByte :=
  buffer.log.drop buffer.logMaskedSize

def bytes (buffer : Buffer) : List UInt8 :=
  bytesOf buffer.published

def advanceAllUnsafe (buffer : Buffer) : Buffer :=
  { buffer with
    logMaskedSize := buffer.log.length
    masked_le := Nat.le_refl _ }

def append (buffer : Buffer) (cells : List LogByte) : Buffer :=
  { buffer with
    log := buffer.log ++ cells
    masked_le := by
      rw [length_append]
      exact Nat.le_add_right_of_le buffer.masked_le }

def truncate (buffer : Buffer) : Buffer :=
  { buffer with
    log := buffer.log.take buffer.logMaskedSize
    masked_le := by
      rw [length_take, Nat.min_eq_left buffer.masked_le] }

/-- `advanceLogUnsafe`, run after every rune: without a possible match
everything is published, a full match is replaced, and a partial match waits for
more characters. -/
def advanceLogUnsafe (buffer : Buffer) : Buffer :=
  match buffer.maskTree with
  | none => buffer.advanceAllUnsafe
  | some maskTree =>
    let rest := bytesOf buffer.window
    let results := maskTree.search rest
    if results.length = 0 then buffer.advanceAllUnsafe
    else if results.length = 1 ∧ results[0]? = some rest then
      (buffer.truncate.append (inserted maskedText)).advanceAllUnsafe
    else buffer

/-- `writeRune`.  The flag is the `io.EOF` of a log that reached its limit; the
other error paths of the source are unreachable, because `bytes.Buffer` and
`advanceLogUnsafe` never fail. -/
def writeRune (buffer : Buffer) (rune : Char) : Buffer × Bool :=
  let written := (buffer.append (copied (String.utf8EncodeChar rune))).advanceLogUnsafe
  if (written.log.length : Int) < written.bytesLimit then (written, false)
  else (written.append (inserted written.limitExceededMessage), true)

/-- `ReadRune` returns a rune: the reader holds a full one, or the stream has
ended and some bytes are left. -/
def readable (buffer : Buffer) : Bool :=
  fullRune buffer.unread || buffer.closed && !buffer.unread.isEmpty

def nextRune (buffer : Buffer) : Char :=
  (decodeRune buffer.unread).1

def readRune (buffer : Buffer) : Buffer :=
  { buffer with
    unread := buffer.unread.drop (decodeRune buffer.unread).2 }

def setStopped (buffer : Buffer) (stopped : Bool) : Buffer :=
  { buffer with stopped := stopped }

def finish (buffer : Buffer) : Buffer :=
  { buffer.advanceAllUnsafe with finished := true }

/-- One iteration of the loop in `process`.  It is not enabled while the reader
waits for the rest of a rune.  Symbols behind the limit are ignored, and the
last iteration, at the end of the stream, publishes the whole log. -/
def process (buffer : Buffer) : Option Buffer :=
  if buffer.finished then none
  else if buffer.readable then
    if buffer.stopped then some buffer.readRune
    else
      let written := buffer.readRune.writeRune buffer.nextRune
      some (written.1.setStopped written.2)
  else if buffer.closed then some buffer.finish
  else none

end Buffer

inductive Event where
  | write (chunk : List UInt8)
  | setMasked (values : List (List UInt8))
  | close
  | process
  deriving DecidableEq, Repr

namespace Buffer

/-- One step of a buffer.  A write to the closed pipe fails without an effect,
so it is not a step. -/
def step (buffer : Buffer) : Event → Option Buffer
  | .write chunk =>
    if buffer.closed then none
    else some { buffer with unread := buffer.unread ++ chunk }
  | .setMasked values => some (buffer.setMasked values)
  | .close => some { buffer with closed := true }
  | .process => buffer.process

def run (buffer : Buffer) (events : List Event) : Option Buffer :=
  ActionRuns.run step buffer events

variable (buffer : Buffer)

theorem published_append_window : buffer.published ++ buffer.window = buffer.log :=
  take_append_drop _ _

@[simp]
theorem published_append (cells : List LogByte) :
    (buffer.append cells).published = buffer.published := by
  simp [published, append, take_append_of_le_length buffer.masked_le]

@[simp]
theorem window_append (cells : List LogByte) :
    (buffer.append cells).window = buffer.window ++ cells := by
  simp [window, append, drop_append_of_le_length buffer.masked_le]

@[simp]
theorem published_advanceAllUnsafe :
    buffer.advanceAllUnsafe.published = buffer.published ++ buffer.window := by
  rw [published_append_window]
  simp [published, advanceAllUnsafe]

@[simp]
theorem window_advanceAllUnsafe : buffer.advanceAllUnsafe.window = [] := by
  simp [window, advanceAllUnsafe]

@[simp]
theorem published_truncate : buffer.truncate.published = buffer.published := by
  simp [published, truncate, take_take]

@[simp]
theorem window_truncate : buffer.truncate.window = [] := by
  apply drop_eq_nil_of_le
  exact length_take_le _ _

@[simp]
theorem published_readRune : buffer.readRune.published = buffer.published :=
  rfl

@[simp]
theorem window_readRune : buffer.readRune.window = buffer.window :=
  rfl

@[simp]
theorem published_setStopped (stopped : Bool) :
    (buffer.setStopped stopped).published = buffer.published :=
  rfl

@[simp]
theorem window_setStopped (stopped : Bool) : (buffer.setStopped stopped).window = buffer.window :=
  rfl

@[simp]
theorem published_finish : buffer.finish.published = buffer.published ++ buffer.window :=
  published_advanceAllUnsafe buffer

@[simp]
theorem window_finish : buffer.finish.window = [] :=
  window_advanceAllUnsafe buffer

/-- What `advanceLogUnsafe` can do, apart from `published` and `window`, which
are all it changes. -/
theorem advanceLogUnsafe_frame :
    buffer.advanceLogUnsafe.maskTree = buffer.maskTree ∧
      buffer.advanceLogUnsafe.bytesLimit = buffer.bytesLimit ∧
      buffer.advanceLogUnsafe.unread = buffer.unread ∧
      buffer.advanceLogUnsafe.closed = buffer.closed ∧
      buffer.advanceLogUnsafe.finished = buffer.finished := by
  fun_cases advanceLogUnsafe buffer <;> exact ⟨rfl, rfl, rfl, rfl, rfl⟩

/-- The three outcomes of `advanceLogUnsafe` under a mask tree: the window is
given up, replaced or kept. -/
theorem advanceLogUnsafe_cases {buffer : Buffer} (masking : buffer.maskTree = some tree) :
    (tree.search (bytesOf buffer.window) = [] ∧
      buffer.advanceLogUnsafe = buffer.advanceAllUnsafe) ∨
    (tree.search (bytesOf buffer.window) = [bytesOf buffer.window] ∧
      buffer.advanceLogUnsafe = (buffer.truncate.append (inserted maskedText)).advanceAllUnsafe) ∨
    (tree.search (bytesOf buffer.window) ≠ [] ∧
      tree.search (bytesOf buffer.window) ≠ [bytesOf buffer.window] ∧
      buffer.advanceLogUnsafe = buffer) := by
  fun_cases advanceLogUnsafe buffer with
  | case1 absent => simp [absent] at masking
  | case2 found isTree rest results noResult =>
    cases isTree.symm.trans masking
    exact .inl ⟨eq_nil_of_length_eq_zero noResult, rfl⟩
  | case3 found isTree rest results _ fullMatch =>
    cases isTree.symm.trans masking
    obtain ⟨key, single⟩ := length_eq_one_iff.mp fullMatch.1
    have keyEq : key = rest := by simpa [single] using fullMatch.2
    exact .inr (.inl ⟨single.trans (by rw [keyEq]), rfl⟩)
  | case4 found isTree rest results someResult noMatch =>
    cases isTree.symm.trans masking
    refine .inr (.inr ⟨?_, ?_, rfl⟩)
    · exact fun noResult => someResult (congrArg List.length noResult)
    · exact fun single => noMatch (by simp [results, rest, single])

theorem process_cases {buffer next : Buffer} (stepTo : buffer.process = some next) :
    buffer.finished = false ∧
      ((buffer.readable = true ∧ buffer.stopped = true ∧
          next = buffer.readRune) ∨
        (buffer.readable = true ∧ buffer.stopped = false ∧
          next = (buffer.readRune.writeRune buffer.nextRune).1.setStopped
            (buffer.readRune.writeRune buffer.nextRune).2) ∨
        (buffer.readable = false ∧ buffer.closed = true ∧ next = buffer.finish)) := by
  revert stepTo
  fun_cases process buffer with
  | case2 running canRead ignoring =>
    rintro ⟨⟩
    exact ⟨by simpa using running, .inl ⟨canRead, ignoring, rfl⟩⟩
  | case3 running canRead active =>
    rintro ⟨⟩
    exact ⟨by simpa using running, .inr (.inl ⟨canRead, by simpa using active, rfl⟩)⟩
  | case4 running waiting ended =>
    rintro ⟨⟩
    exact ⟨by simpa using running, .inr (.inr ⟨by simpa using waiting, ended, rfl⟩)⟩
  | case1 | case5 => nofun

theorem writeRune_stream (rune : Char) :
    (buffer.writeRune rune).1.unread = buffer.unread ∧
      (buffer.writeRune rune).1.closed = buffer.closed := by
  have frame := advanceLogUnsafe_frame (buffer.append (copied (String.utf8EncodeChar rune)))
  unfold writeRune
  dsimp only
  split <;> exact ⟨frame.2.2.1, frame.2.2.2.1⟩

theorem process_closed {buffer next : Buffer}
    (stepTo : buffer.process = some next) : next.closed = buffer.closed := by
  obtain ⟨_, ⟨_, _, rfl⟩ | ⟨_, _, rfl⟩ | ⟨_, _, rfl⟩⟩ := process_cases stepTo
  · rfl
  · exact (writeRune_stream buffer.readRune buffer.nextRune).2
  · rfl

theorem step_closed {buffer next : Buffer} {event : Event} (closed : buffer.closed = true)
    (stepTo : buffer.step event = some next) : next.closed = true := by
  cases event with
  | write chunk => simp [step, closed] at stepTo
  | setMasked values =>
    obtain rfl := Option.some.inj stepTo
    exact closed
  | close =>
    obtain rfl := Option.some.inj stepTo
    rfl
  | process => exact (process_closed stepTo).trans closed

theorem published_advanceLogUnsafe (buffer : Buffer) :
    buffer.published <+: buffer.advanceLogUnsafe.published := by
  cases masking : buffer.maskTree with
  | none =>
    have advanced : buffer.advanceLogUnsafe = buffer.advanceAllUnsafe := by
      simp only [advanceLogUnsafe, masking]
    rw [advanced, published_advanceAllUnsafe]
    apply List.prefix_append
  | some tree =>
    rcases advanceLogUnsafe_cases masking with
      ⟨_, advanced⟩ | ⟨_, advanced⟩ | ⟨_, _, advanced⟩
    · rw [advanced, published_advanceAllUnsafe]
      apply List.prefix_append
    · rw [advanced, published_advanceAllUnsafe, published_append, published_truncate]
      apply List.prefix_append
    · rw [advanced]

theorem published_writeRune (buffer : Buffer) (rune : Char) :
    buffer.published <+: (buffer.writeRune rune).1.published := by
  have advanced := published_advanceLogUnsafe (buffer.append (copied (String.utf8EncodeChar rune)))
  rw [published_append] at advanced
  unfold writeRune
  dsimp only
  split
  · exact advanced
  · rw [published_append]
    exact advanced

theorem published_process {buffer next : Buffer} (stepTo : buffer.process = some next) :
    buffer.published <+: next.published := by
  obtain ⟨_, ⟨_, _, rfl⟩ | ⟨_, _, rfl⟩ | ⟨_, _, rfl⟩⟩ := process_cases stepTo
  · apply List.prefix_rfl
  · rw [published_setStopped]
    exact published_writeRune buffer.readRune buffer.nextRune
  · rw [published_finish]
    apply List.prefix_append

theorem published_step {buffer next : Buffer} {event : Event}
    (stepTo : buffer.step event = some next) : buffer.published <+: next.published := by
  cases event with
  | write chunk =>
    simp only [step] at stepTo
    split at stepTo
    · cases stepTo
    · cases stepTo
      apply List.prefix_rfl
  | setMasked | close =>
    cases stepTo
    apply List.prefix_rfl
  | process => exact published_process stepTo

theorem published_run {buffer last : Buffer} {events : List Event}
    (reached : buffer.run events = some last) : buffer.published <+: last.published := by
  apply ActionRuns.run_invariant_of_step
    (fun current => buffer.published <+: current.published) _ _ reached
  · intro current event next grown stepTo
    exact grown.trans (published_step stepTo)
  · apply List.prefix_rfl

/-- Along every run of a new buffer with any limit, what `Bytes` returns at one
moment is a prefix of what it returns at every later moment. -/
theorem bytes_stable {limit : Int} {events : List Event} {first last : Buffer}
    {earlier later : Nat} (ordered : earlier ≤ later)
    (reached : (new.setLimit limit).run (events.take earlier) = some first)
    (continued : (new.setLimit limit).run (events.take later) = some last) :
    first.bytes <+: last.bytes := by
  obtain ⟨between, reachedLater⟩ := ActionRuns.run_between ordered reached continued
  have grown := published_run reachedLater
  exact grown.map LogByte.byte

/-- With `ab` masked, the log `x` of the first moment is a prefix of the log
after the value was replaced. -/
theorem bytes_stable_replacement :
    ∃ first last, (new.setLimit 1000).run
        ([.setMasked [encode ['a', 'b']], .write (encode ['x', 'a', 'b']),
          .process, .process, .process].take 3) = some first ∧
      (new.setLimit 1000).run ([.setMasked [encode ['a', 'b']], .write (encode ['x', 'a', 'b']),
          .process, .process, .process].take 5) = some last ∧
      first.bytes = encode ['x'] ∧ first.bytes <+: last.bytes := by
  obtain ⟨first, reached, firstBytes⟩ := Option.map_eq_some_iff.mp (by decide :
    ((new.setLimit 1000).run
      ([.setMasked [encode ['a', 'b']], .write (encode ['x', 'a', 'b']),
        .process, .process, .process].take 3)).map bytes = some (encode ['x']))
  obtain ⟨last, continued⟩ := Option.isSome_iff_exists.mp (by decide :
    ((new.setLimit 1000).run
      ([.setMasked [encode ['a', 'b']], .write (encode ['x', 'a', 'b']),
        .process, .process, .process].take 5)).isSome = true)
  have ordered : 3 ≤ 5 := by omega
  exact ⟨first, last, reached, continued, firstBytes,
    bytes_stable ordered reached continued⟩

end Buffer

end GitlabRunner.Trace
