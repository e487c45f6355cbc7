import GitlabRunner.TraceMasking

/-!
# The log as a function of the input

What the trace buffer writes depends on the runes of its input alone.  A `Transcript` takes
them one after the other: it holds back what could still become a masked value, and shows
the rest.
-/

namespace GitlabRunner.Trace

open List ActionRuns Option Utf8 Buffer

/-- A text with the masked values replaced, and what is held back at its end. -/
structure Transcript where
  shown : List UInt8
  held : List UInt8
  deriving DecidableEq, Repr

namespace Transcript

def empty : Transcript := ⟨[], []⟩

def log (transcript : Transcript) : List UInt8 :=
  transcript.shown ++ transcript.held

def next (tree : Option MaskTree) (transcript : Transcript) (rune : Char) : Transcript :=
  let held := transcript.held ++ String.utf8EncodeChar rune
  match tree with
  | none => ⟨transcript.shown ++ held, []⟩
  | some tree =>
    if tree.search held = [] then ⟨transcript.shown ++ held, []⟩
    else if tree.search held = [held] then
      ⟨transcript.shown ++ encode maskedText.toList, []⟩
    else ⟨transcript.shown, held⟩

end Transcript

def transcript (tree : Option MaskTree) (runes : List Char) : Transcript :=
  runes.foldl (Transcript.next tree) Transcript.empty

/-- One more rune, unless the transcript has reached the limit. -/
def Transcript.nextLimited (tree : Option MaskTree) (limit : Int) :
    Transcript × Bool → Char → Transcript × Bool
  | (sofar, true), _ => (sofar, true)
  | (sofar, false), rune =>
    (sofar.next tree rune, decide (limit ≤ ((sofar.next tree rune).log.length : Int)))

/-- The transcript of a text that ends with the first rune that takes it to the
limit, and whether it has ended so. -/
def limited (tree : Option MaskTree) (limit : Int) (runes : List Char) : Transcript × Bool :=
  runes.foldl (Transcript.nextLimited tree limit) (Transcript.empty, false)

def exceededText (limit : Int) : List UInt8 :=
  encode (Buffer.new.setLimit limit).limitExceededMessage.toList

/-- The log of a text: its transcript, with the message if it has reached the
limit. -/
def finalLog (tree : Option MaskTree) (limit : Int) (runes : List Char) : List UInt8 :=
  (limited tree limit runes).1.log ++
    if (limited tree limit runes).2 then exceededText limit else []

theorem transcript_concat (tree : Option MaskTree) (runes : List Char) (rune : Char) :
    transcript tree (runes ++ [rune]) = (transcript tree runes).next tree rune :=
  foldl_concat _ _ _ _

theorem limited_concat (tree : Option MaskTree) (limit : Int) (runes : List Char) (rune : Char) :
    limited tree limit (runes ++ [rune]) =
      Transcript.nextLimited tree limit (limited tree limit runes) rune :=
  foldl_concat _ _ _ _

variable {limit : Int} {tree : Option MaskTree}

/-- A text that does not reach the limit has its whole transcript. -/
theorem limited_running {runes : List Char} (running : (limited tree limit runes).2 = false) :
    (limited tree limit runes).1 = transcript tree runes := by
  induction runes using List.reverseRecOn with
  | nil => rfl
  | append_singleton runes rune ih =>
    rw [limited_concat] at running ⊢
    rw [transcript_concat]
    rcases sofarEq : limited tree limit runes with ⟨sofar, ended⟩
    rw [sofarEq] at running ih
    cases ended with
    | true => cases running
    | false =>
      rw [← ih rfl]
      rfl

/-- A text that reaches the limit has the transcript up to the rune that reaches
it. -/
theorem limited_ended {runes : List Char} (ended : (limited tree limit runes).2 = true) :
    ∃ before rune after, runes = before ++ rune :: after ∧
      (limited tree limit before).2 = false ∧
      (limited tree limit runes).1 = transcript tree (before ++ [rune]) ∧
      limit ≤ ((transcript tree (before ++ [rune])).log.length : Int) := by
  induction runes using List.reverseRecOn with
  | nil => cases ended
  | append_singleton runes rune ih =>
    rw [limited_concat] at ended ⊢
    have whole := @limited_running limit tree runes
    rcases sofarEq : limited tree limit runes with ⟨sofar, already⟩
    rw [sofarEq] at ended ih whole
    cases already with
    | true =>
      obtain ⟨before, first, after, rfl, running, same, reached⟩ := ih rfl
      exact ⟨before, first, after ++ [rune], by simp, running, same, reached⟩
    | false =>
      have sofarIs : sofar = transcript tree runes := whole rfl
      refine ⟨runes, rune, [], rfl, congrArg Prod.snd sofarEq, ?_, ?_⟩
      · rw [transcript_concat, ← sofarIs]
        rfl
      · rw [transcript_concat, ← sofarIs]
        exact of_decide_eq_true ended

namespace Buffer

def transcript (buffer : Buffer) : Transcript :=
  ⟨bytesOf buffer.published, bytesOf buffer.window⟩

theorem log_transcript (buffer : Buffer) : buffer.transcript.log = bytesOf buffer.log := by
  rw [← published_append_window buffer, bytesOf_append]
  rfl

theorem bytesOf_inserted (text : String) : bytesOf (inserted text) = encode text.toList := by
  simp [bytesOf, inserted, Function.comp_def]

theorem transcript_append (buffer : Buffer) (bytes : List UInt8) :
    (buffer.append (copied bytes)).transcript =
      ⟨buffer.transcript.shown, buffer.transcript.held ++ bytes⟩ := by
  simp [transcript]

theorem transcript_advanceAllUnsafe (buffer : Buffer) :
    buffer.advanceAllUnsafe.transcript = ⟨buffer.transcript.log, []⟩ := by
  rw [transcript, published_advanceAllUnsafe, window_advanceAllUnsafe, bytesOf_append]
  rfl

/-- Writing a rune to the log is the next step of the transcript. -/
theorem transcript_advanceLogUnsafe (buffer : Buffer) (rune : Char) :
    (buffer.append (copied (String.utf8EncodeChar rune))).advanceLogUnsafe.transcript =
      buffer.transcript.next buffer.maskTree rune := by
  have appended := transcript_append buffer (String.utf8EncodeChar rune)
  have window : bytesOf (buffer.append (copied (String.utf8EncodeChar rune))).window =
      buffer.transcript.held ++ String.utf8EncodeChar rune := congrArg Transcript.held appended
  cases masking : buffer.maskTree with
  | none =>
    have advance : (buffer.append (copied (String.utf8EncodeChar rune))).advanceLogUnsafe =
        (buffer.append (copied (String.utf8EncodeChar rune))).advanceAllUnsafe := by
      simp [advanceLogUnsafe, append, masking]
    rw [advance, transcript_advanceAllUnsafe, appended]
    rfl
  | some tree =>
    have same : (buffer.append (copied (String.utf8EncodeChar rune))).maskTree =
        some tree := masking
    unfold Transcript.next
    dsimp only
    rw [← window]
    rcases advanceLogUnsafe_cases same with
      ⟨noResult, advance⟩ | ⟨single, advance⟩ | ⟨someResult, noMatch, advance⟩
    · rw [if_pos noResult, advance, transcript_advanceAllUnsafe, appended, window]
      rfl
    · have someResult := cons_ne_nil (bytesOf (buffer.append
        (copied (String.utf8EncodeChar rune))).window) []
      rw [← single] at someResult
      rw [if_neg someResult, if_pos single, advance, transcript_advanceAllUnsafe]
      simp [transcript, Transcript.log, bytesOf_inserted]
    · rw [if_neg someResult, if_neg noMatch, advance, appended, window]

theorem writeRune_frame (buffer : Buffer) (rune : Char) :
    (buffer.writeRune rune).1.maskTree = buffer.maskTree ∧
      (buffer.writeRune rune).1.bytesLimit = buffer.bytesLimit ∧
      (buffer.writeRune rune).1.finished = buffer.finished := by
  have frame := advanceLogUnsafe_frame (buffer.append (copied (String.utf8EncodeChar rune)))
  unfold writeRune
  dsimp only
  split <;> exact ⟨frame.1, frame.2.1, frame.2.2.2.2⟩

theorem writeRune_transcript (buffer : Buffer) (rune : Char) :
    (buffer.writeRune rune).2 = decide (buffer.bytesLimit ≤
          ((buffer.transcript.next buffer.maskTree rune).log.length : Int)) ∧
      ((buffer.writeRune rune).2 = false →
        (buffer.writeRune rune).1.transcript = buffer.transcript.next buffer.maskTree rune) ∧
      bytesOf (buffer.writeRune rune).1.log = (buffer.transcript.next buffer.maskTree rune).log ++
          if (buffer.writeRune rune).2 then exceededText buffer.bytesLimit else [] := by
  have frame := (advanceLogUnsafe_frame (buffer.append (copied (String.utf8EncodeChar rune)))).2.1
  have written := transcript_advanceLogUnsafe buffer rune
  have lengthEq := congrArg (fun text => (text.log.length : Int)) written
  simp only [log_transcript, bytesOf, length_map] at lengthEq
  unfold writeRune
  dsimp only
  split
  · rename_i below
    rw [frame, lengthEq] at below
    refine ⟨(decide_eq_false (Int.not_le.mpr below)).symm, fun _ => written, ?_⟩
    rw [← log_transcript, written]
    simp
  · rename_i reached
    rw [frame, lengthEq] at reached
    refine ⟨(decide_eq_true (Int.not_lt.mp reached)).symm,
      fun running => (Bool.noConfusion running), ?_⟩
    have message : bytesOf (inserted (buffer.append (copied (String.utf8EncodeChar
        rune))).advanceLogUnsafe.limitExceededMessage) = exceededText buffer.bytesLimit := by
      rw [bytesOf_inserted, exceededText, limitExceededMessage, frame]
      rfl
    simp only [append, bytesOf_append, ← written, log_transcript, if_true]
    exact congrArg _ message

end Buffer

/-- A buffer that has decoded the runes `done`: it stands where their transcript
stands, and at the end of the stream it publishes all of it. -/
structure Follows (tree : Option MaskTree) (limit : Int) (buffer : Buffer)
    (done : List Char) : Prop where
  maskTree : buffer.maskTree = tree
  bytesLimit : buffer.bytesLimit = limit
  stopped : buffer.stopped = (limited tree limit done).2
  running : buffer.stopped = false → buffer.finished = false →
    buffer.transcript = (limited tree limit done).1
  log : bytesOf buffer.log = finalLog tree limit done
  finished : buffer.finished = true →
    buffer.closed = true ∧ buffer.unread = [] ∧ buffer.bytes = bytesOf buffer.log
variable {done : List Char}

theorem limited_concat_stopped (stopped : (limited tree limit done).2 = true) (rune : Char) :
    limited tree limit (done ++ [rune]) = limited tree limit done := by
  rw [limited_concat]
  rcases sofarEq : limited tree limit done with ⟨sofar, ended⟩
  rw [sofarEq] at stopped
  cases stopped
  rfl
variable {buffer : Buffer}

section

variable (follows : Follows tree limit buffer done)

include follows

theorem Follows.ignore
    (active : buffer.finished = false) (stopped : buffer.stopped = true) (rune : Char) :
    Follows tree limit buffer.readRune (done ++ [rune]) := by
  have same := limited_concat_stopped (follows.stopped.symm.trans stopped) rune
  refine ⟨follows.maskTree, follows.bytesLimit, ?_, ?_, ?_, ?_⟩
  · rw [same]
    exact follows.stopped
  · intro running
    exact absurd (stopped.symm.trans running) (by decide)
  · rw [finalLog, same]
    exact follows.log
  · intro finished
    exact absurd (active.symm.trans finished) (by decide)

theorem Follows.write
    (active : buffer.finished = false) (writing : buffer.stopped = false) (rune : Char) :
    Follows tree limit ((buffer.readRune.writeRune rune).1.setStopped
      (buffer.readRune.writeRune rune).2) (done ++ [rune]) := by
  obtain ⟨stopped, running, log⟩ := buffer.readRune.writeRune_transcript rune
  have frame := buffer.readRune.writeRune_frame rune
  have before : buffer.readRune.transcript = (limited tree limit done).1 :=
    follows.running writing active
  have after : limited tree limit (done ++ [rune]) =
      ((buffer.readRune.transcript.next buffer.readRune.maskTree rune),
        (buffer.readRune.writeRune rune).2) := by
    have limitEq : buffer.readRune.bytesLimit = limit := follows.bytesLimit
    have treeEq : buffer.readRune.maskTree = tree := follows.maskTree
    rw [limited_concat, stopped, before, limitEq, treeEq]
    rcases sofarEq : limited tree limit done with ⟨sofar, ended⟩
    have unended : ended = false := by
      have stoppedEq := follows.stopped
      rw [sofarEq, writing] at stoppedEq
      exact stoppedEq.symm
    rw [unended]
    rfl
  refine ⟨frame.1.trans follows.maskTree, frame.2.1.trans follows.bytesLimit, ?_, ?_, ?_, ?_⟩
  · rw [after]
    rfl
  · intro notReached _
    rw [after]
    exact running notReached
  · rw [finalLog, after, ← follows.bytesLimit]
    exact log
  · intro finished
    exact absurd ((frame.2.2.trans active).symm.trans finished) (by decide)

theorem Follows.finish (closed : buffer.closed = true) (empty : buffer.unread = []) :
    Follows tree limit buffer.finish done := by
  refine ⟨follows.maskTree, follows.bytesLimit, follows.stopped, nofun, follows.log, ?_⟩
  intro _
  refine ⟨closed, empty, ?_⟩
  rw [bytes, published_finish, published_append_window]
  rfl

end

theorem unread_ne_nil_of_readable (readable : buffer.readable = true) : buffer.unread ≠ [] := by
  intro empty
  simp [Buffer.readable, empty, fullRune] at readable

variable {later : List UInt8}

/-- The rune that the reader takes is the next one of the whole input. -/
theorem runes_readRune
    (readable : buffer.readable = true) (last : buffer.closed = true → later = []) :
    runes (buffer.unread ++ later) =
      buffer.nextRune :: runes (buffer.readRune.unread ++ later) := by
  have nonempty := unread_ne_nil_of_readable readable
  have decoded : decodeRune (buffer.unread ++ later) = decodeRune buffer.unread := by
    cases full : fullRune buffer.unread with
    | true => exact decodeRune_append full later
    | false =>
      have closed : buffer.closed = true := by
        simp only [Buffer.readable, full, Bool.false_or, Bool.and_eq_true] at readable
        exact readable.1
      rw [last closed, append_nil]
  rw [runes_of_ne_nil (append_ne_nil_of_left_ne_nil nonempty later), decoded]
  rcases unreadEq : buffer.unread with _ | ⟨byte, tail⟩
  · exact (nonempty unreadEq).elim
  · have width := (decodeRune_width byte tail).2
    rw [drop_append_of_le_length width]
    simp [Buffer.nextRune, Buffer.readRune, unreadEq]

section

variable (follows : Follows tree limit buffer done)

include follows

theorem Follows.process {next : Buffer}
    (last : buffer.closed = true → later = []) (stepTo : buffer.process = some next) :
    ∃ more, runes (buffer.unread ++ later) = more ++ runes (next.unread ++ later) ∧
      Follows tree limit next (done ++ more) := by
  obtain ⟨active, ⟨readable, stopped, rfl⟩ | ⟨readable, writing, rfl⟩ | ⟨waiting, closed, rfl⟩⟩ :=
    process_cases stepTo
  · exact ⟨[buffer.nextRune], runes_readRune readable last,
      follows.ignore active stopped buffer.nextRune⟩
  · refine ⟨[buffer.nextRune], ?_, follows.write active writing buffer.nextRune⟩
    rw [runes_readRune readable last]
    exact congrArg (fun unread => buffer.nextRune :: runes (unread ++ later))
      (writeRune_stream buffer.readRune buffer.nextRune).1.symm
  · refine ⟨[], rfl, ?_⟩
    rw [append_nil]
    apply follows.finish closed
    simpa [readable, closed] using (Bool.or_eq_false_iff.mp waiting).2

theorem Follows.step {next : Buffer} {event : Event} (quiet : ∀ values, event ≠ .setMasked values)
    (last : buffer.closed = true → later = []) (stepTo : buffer.step event = some next) :
    ∃ more, runes (buffer.unread ++ (writtenBy [event] ++ later)) =
        more ++ runes (next.unread ++ later) ∧ Follows tree limit next (done ++ more) := by
  cases event with
  | write chunk =>
    obtain ⟨isOpen, same⟩ := ite_none_left_eq_some.mp stepTo
    obtain rfl := some.inj same
    refine ⟨[], by simp [writtenBy], ?_⟩
    rw [append_nil]
    exact ⟨follows.maskTree, follows.bytesLimit, follows.stopped, follows.running, follows.log,
      fun finished => (isOpen (follows.finished finished).1).elim⟩
  | setMasked values => exact (quiet values rfl).elim
  | close =>
    obtain rfl := some.inj stepTo
    refine ⟨[], rfl, ?_⟩
    rw [append_nil]
    exact ⟨follows.maskTree, follows.bytesLimit, follows.stopped, follows.running, follows.log,
      fun finished => ⟨rfl, (follows.finished finished).2⟩⟩
  | process => exact follows.process last stepTo
variable {events : List Event}

theorem run_follows {last : Buffer}
    (quiet : ∀ values, Event.setMasked values ∉ events) (reached : buffer.run events = some last) :
    ∃ more, runes (buffer.unread ++ writtenBy events) = more ++ runes last.unread ∧
      Follows tree limit last (done ++ more) := by
  induction events generalizing buffer done with
  | nil =>
    cases reached
    refine ⟨[], ?_, ?_⟩
    · rw [writtenBy, append_nil, nil_append]
    · rwa [append_nil]
  | cons event events ih =>
    obtain ⟨next, stepTo, reachedNext⟩ := run_cons_eq_some.mp reached
    have headQuiet : ∀ values, event ≠ .setMasked values := by
      rintro values rfl
      exact quiet values mem_cons_self
    have written : writtenBy (event :: events) = writtenBy [event] ++ writtenBy events := by
      cases event <;> simp [writtenBy]
    obtain ⟨first, firstRunes, followsNext⟩ := follows.step headQuiet
      (fun closed => writtenBy_eq_nil_of_closed
        (step_closed closed stepTo) reachedNext) stepTo
    obtain ⟨rest, restRunes, followsLast⟩ := ih followsNext
      (fun values member => quiet values (mem_cons_of_mem _ member)) reachedNext
    refine ⟨first ++ rest, ?_, ?_⟩
    · rw [written, firstRunes, restRunes, append_assoc]
    · rwa [← append_assoc]

end

def maskTreeOf (masked : List (List UInt8)) : Option MaskTree :=
  (Buffer.new.setMasked masked).maskTree

theorem start_follows (limit : Int) (masked : List (List UInt8)) :
    Follows (maskTreeOf masked) limit (start limit masked) [] :=
  ⟨rfl, rfl, rfl, fun _ _ => rfl, rfl, nofun⟩

/-- When the goroutine has ended, it has decoded the whole input. -/
theorem follows_of_finished {limit : Int} {masked : List (List UInt8)} {events : List Event}
    {last : Buffer} (quiet : ∀ values, Event.setMasked values ∉ events)
    (reached : (start limit masked).run events = some last) (finished : last.finished = true) :
    Follows (maskTreeOf masked) limit last (runes (writtenBy events)) := by
  obtain ⟨done, runesEq, follows⟩ := run_follows (start_follows limit masked) quiet reached
  rw [(follows.finished finished).2.1, runes_nil, append_nil] at runesEq
  obtain rfl : runes (writtenBy events) = done := runesEq
  exact follows

theorem process_of_readable (active : buffer.finished = false) (readable : buffer.readable = true) :
    ∃ next, buffer.process = some next ∧ next.unread.length < buffer.unread.length := by
  have shorter : buffer.readRune.unread.length < buffer.unread.length := by
    rcases unreadEq : buffer.unread with _ | ⟨byte, tail⟩
    · exact (unread_ne_nil_of_readable readable unreadEq).elim
    · have width := (decodeRune_width byte tail).1
      simp only [readRune, unreadEq, length_drop, length_cons]
      omega
  unfold process
  rw [if_neg (by simp [active]), if_pos readable]
  split
  · exact ⟨buffer.readRune, rfl, shorter⟩
  · refine ⟨_, rfl, ?_⟩
    have stream := (writeRune_stream buffer.readRune buffer.nextRune).1
    exact lt_of_eq_of_lt (congrArg List.length stream) shorter

/-- The goroutine takes every rune that is there, and ends if the stream is
closed. -/
theorem drains (buffer : Buffer) :
    ∃ steps next, buffer.run (List.replicate steps .process) = some next ∧
      next.closed = buffer.closed ∧
      (next.finished = true ∨ next.readable = false ∧ next.closed = false) := by
  generalize size : buffer.unread.length = count
  induction count using Nat.strongRecOn generalizing buffer with
  | ind count ih =>
    cases active : buffer.finished with
    | true => exact ⟨0, buffer, rfl, rfl, .inl active⟩
    | false =>
      cases readable : buffer.readable with
      | true =>
        obtain ⟨next, stepTo, shorter⟩ := process_of_readable active readable
        obtain ⟨steps, last, reached, closedEq, ended⟩ := ih _ (size ▸ shorter) next rfl
        refine ⟨steps + 1, last, ?_, closedEq.trans (process_closed stepTo), ended⟩
        exact run_cons_eq_some.mpr ⟨next, stepTo, reached⟩
      | false =>
        cases closed : buffer.closed with
        | true =>
          refine ⟨1, buffer.finish, ?_, closed, .inl rfl⟩
          apply run_cons_eq_some.mpr
          exact ⟨buffer.finish, by simp [step, process, active, readable,
            closed], rfl⟩
        | false => exact ⟨0, buffer, rfl, closed, .inr ⟨readable, closed⟩⟩

theorem writtenBy_append_process (events : List Event) (steps : Nat) :
    writtenBy (events ++ List.replicate steps .process) = writtenBy events := by
  induction events with
  | nil =>
    induction steps with
    | zero => rfl
    | succ steps ih => exact ih
  | cons event events ih =>
    cases event with
    | write chunk => exact congrArg (chunk ++ ·) ih
    | setMasked values => exact ih
    | close => exact ih
    | process => exact ih

theorem quiet_process (steps : Nat) :
    ∀ values, Event.setMasked values ∉ List.replicate steps Event.process := by
  intro values member
  cases eq_of_mem_replicate member

theorem quiet_append_process (quiet : ∀ values, Event.setMasked values ∉ events) (steps : Nat) :
    ∀ values, Event.setMasked values ∉ events ++ List.replicate steps .process := by
  intro values member
  rcases mem_append.mp member with before | after
  · exact quiet values before
  · exact quiet_process steps values after

/-- After `Close` the goroutine ends, and stands at the end of the whole input. -/
theorem ends_of_closed {limit : Int} {masked : List (List UInt8)} {events : List Event}
    {closing : Buffer} (quiet : ∀ values, Event.setMasked values ∉ events)
    (reached : (Buffer.start limit masked).run events = some closing)
    (closed : closing.closed = true) :
    ∃ steps last, closing.run (List.replicate steps .process) = some last ∧
      (Buffer.start limit masked).run (events ++ List.replicate steps .process) = some last ∧
      last.finished = true ∧ Follows (maskTreeOf masked) limit last (runes (writtenBy events)) := by
  obtain ⟨steps, last, drained, closedEq, ended⟩ := drains closing
  have finished : last.finished = true := by
    rcases ended with finished | ⟨_, isOpen⟩
    · exact finished
    · exact absurd ((closedEq.trans closed).symm.trans isOpen) (by decide)
  have whole : (Buffer.start limit masked).run (events ++ List.replicate steps .process) =
      some last := by
    unfold Buffer.run at reached drained ⊢
    rw [run_append, reached]
    exact drained
  have follows := follows_of_finished (quiet_append_process quiet steps) whole finished
  rw [writtenBy_append_process] at follows
  exact ⟨steps, last, drained, whole, finished, follows⟩

theorem Follows.bytes (follows : Follows tree limit buffer done)
    (finished : buffer.finished = true) : buffer.bytes = finalLog tree limit done :=
  (follows.finished finished).2.2.trans follows.log

/-- A piece of the log: a piece of the input, or the text that stands for a masked
value. -/
inductive Piece where
  | kept (text : List UInt8)
  | masked (value : List UInt8)
  deriving DecidableEq, Repr

/-- The piece of the input that a piece of the log stands for. -/
def Piece.source : Piece → List UInt8
  | kept text => text
  | masked value => value

def Piece.shown : Piece → List UInt8
  | kept text => text
  | masked _ => encode maskedText.toList

/-- A splitting of the input into pieces that are shown as they are and values
of the mask tree, whose shown pieces make up the log. -/
structure SplitsInto (tree : Option MaskTree) (pieces : List Piece) (input shown : List UInt8) :
    Prop where
  source : pieces.flatMap Piece.source = input
  shown : pieces.flatMap Piece.shown = shown
  values : ∀ value, Piece.masked value ∈ pieces → ∃ keys, tree = some keys ∧ value ∈ keys.keys

theorem SplitsInto.kept {pieces : List Piece}
    {input shown : List UInt8} (splits : SplitsInto tree pieces input shown) (text : List UInt8) :
    SplitsInto tree (pieces ++ [.kept text]) (input ++ text) (shown ++ text) := by
  refine ⟨?_, ?_, ?_⟩
  · simp [splits.source, Piece.source]
  · simp [splits.shown, Piece.shown]
  · intro value member
    apply splits.values value
    simpa using member

theorem SplitsInto.masked {tree : MaskTree} {pieces : List Piece}
    {input shown : List UInt8} (splits : SplitsInto (some tree) pieces input shown)
    {value : List UInt8} (key : value ∈ tree.keys) :
    SplitsInto (some tree) (pieces ++ [.masked value]) (input ++ value)
      (shown ++ encode maskedText.toList) := by
  refine ⟨?_, ?_, ?_⟩
  · simp [splits.source, Piece.source]
  · simp [splits.shown, Piece.shown]
  · intro other member
    rcases mem_append.mp member with before | isLast
    · exact splits.values other before
    · obtain rfl : other = value := by simpa using isLast
      exact ⟨tree, rfl, key⟩

/-- The transcript splits the text that it has read, up to what it holds back. -/
theorem transcript_splits (tree : Option MaskTree) (runes : List Char) :
    ∃ pieces input, encode runes = input ++ (transcript tree runes).held ∧
      SplitsInto tree pieces input (transcript tree runes).shown := by
  induction runes using List.reverseRecOn with
  | nil => exact ⟨[], [], rfl, rfl, rfl, nofun⟩
  | append_singleton runes rune ih =>
    obtain ⟨pieces, input, inputEq, splits⟩ := ih
    have encoded : encode (runes ++ [rune]) =
        input ++ ((transcript tree runes).held ++ String.utf8EncodeChar rune) := by
      rw [← append_assoc, ← inputEq]
      simp [encode]
    rw [transcript_concat]
    cases tree with
    | none => exact ⟨_, _, by simpa [Transcript.next] using encoded, splits.kept _⟩
    | some tree =>
      unfold Transcript.next
      dsimp only
      split
      · exact ⟨_, _, by simpa using encoded, splits.kept _⟩
      · split
        · rename_i single
          have key := MaskTree.mem_search.mp (single ▸ mem_singleton_self _)
          exact ⟨_, _, by simpa using encoded, splits.masked key.1⟩
        · exact ⟨pieces, input, encoded, splits⟩

theorem mem_of_maskTreeOf {masked : List (List UInt8)} {tree : MaskTree} {value : List UInt8}
    (treeEq : maskTreeOf masked = some tree) (key : value ∈ tree.keys) : value ∈ masked := by
  obtain ⟨_, same⟩ := ite_none_left_eq_some.mp treeEq
  obtain rfl := some.inj same
  rcases MaskTree.mem_keys_foldl_add.mp key with inNew | inMasked
  · cases inNew
  · exact inMasked.1

/-- A log that is shorter than its limit splits into pieces of the input and
masked values that are replaced. -/
theorem finalLog_splits {masked : List (List UInt8)} {limit : Int} {text : List Char}
    (below : ((finalLog (maskTreeOf masked) limit text).length : Int) < limit) :
    ∃ pieces : List Piece,
      pieces.flatMap Piece.shown = finalLog (maskTreeOf masked) limit text ∧
      pieces.flatMap Piece.source = encode text ∧
      ∀ value, Piece.masked value ∈ pieces → value ∈ masked := by
  cases ended : (limited (maskTreeOf masked) limit text).2 with
  | true =>
    obtain ⟨_, _, _, _, _, same, reached⟩ := limited_ended ended
    rw [finalLog, same, length_append] at below
    omega
  | false =>
    obtain ⟨pieces, input, inputEq, splits⟩ := transcript_splits (maskTreeOf masked) text
    have whole := splits.kept (transcript (maskTreeOf masked) text).held
    refine ⟨_, ?_, whole.source.trans inputEq.symm, ?_⟩
    · rw [whole.shown, finalLog, limited_running ended, ended]
      simp [Transcript.log]
    · intro value member
      obtain ⟨tree, treeEq, key⟩ := whole.values value member
      exact mem_of_maskTreeOf treeEq key

/-- The log is the input with the masked values replaced and nothing else.  After
`Close`, whenever the writes, the reads and the close have happened, the
goroutine ends.  If the log is then shorter than its limit, it is made of pieces
of the input and of the texts that stand for masked values, which together are
the input.  Another way to write the same input leaves the same log. -/
theorem log_splits_input (masked : List (List UInt8)) (limit : Int) (text : List Char)
    (events : List Event) (closing : Buffer) (quiet : ∀ values, Event.setMasked values ∉ events)
    (input : writtenBy events = encode text)
    (reached : (Buffer.start limit masked).run events = some closing)
    (closed : closing.closed = true) :
    ∃ steps last, closing.run (List.replicate steps .process) = some last ∧
      last.finished = true ∧
      ((last.bytes.length : Int) < limit →
        ∃ pieces : List Piece, pieces.flatMap Piece.shown = last.bytes ∧
          pieces.flatMap Piece.source = encode text ∧
          ∀ value, Piece.masked value ∈ pieces → value ∈ masked) ∧
      ∀ otherEvents other, (∀ values, Event.setMasked values ∉ otherEvents) →
        writtenBy otherEvents = encode text →
        (Buffer.start limit masked).run otherEvents = some other →
        other.finished = true → other.bytes = last.bytes := by
  obtain ⟨steps, last, drained, _, finished, follows⟩ := ends_of_closed quiet reached closed
  rw [input, runes_encode] at follows
  have published := follows.bytes finished
  refine ⟨steps, last, drained, finished, ?_, ?_⟩
  · rw [published]
    exact finalLog_splits
  · intro otherEvents other otherQuiet otherInput otherReached otherFinished
    have otherFollows := follows_of_finished otherQuiet otherReached otherFinished
    rw [otherInput, runes_encode] at otherFollows
    rw [published, otherFollows.bytes otherFinished]

/-- With `ab` masked, `xaby` is written in two chunks that cut the value, and the
log is `x`, the replacement and `y`. -/
theorem log_splits_input_chunked :
    ∃ closing, (Buffer.start 1000 [encode ['a', 'b']]).run
        [.write (encode ['x', 'a']), .process, .write (encode ['b', 'y']),
          .close] = some closing ∧
      ∃ steps last, closing.run (List.replicate steps .process) = some last ∧
        last.bytes = encode "x[MASKED]y".toList ∧
        ∃ pieces : List Piece, pieces.flatMap Piece.shown = last.bytes ∧
          pieces.flatMap Piece.source = encode ['x', 'a', 'b', 'y'] := by
  obtain ⟨closing, reached, closed⟩ := map_eq_some_iff.mp (by decide :
    ((Buffer.start 1000 [encode ['a', 'b']]).run
      [.write (encode ['x', 'a']), .process, .write (encode ['b', 'y']),
        .close]).map Buffer.closed = some true)
  obtain ⟨other, otherReached, otherIs⟩ := map_eq_some_iff.mp (by decide :
    ((Buffer.start 1000 [encode ['a', 'b']]).run
      [.write (encode ['x', 'a', 'b', 'y']), .close, .process, .process, .process,
        .process, .process]).map (fun buffer => (buffer.finished, buffer.bytes)) =
      some (true, encode "x[MASKED]y".toList))
  obtain ⟨otherFinished, otherBytes⟩ := Prod.mk.inj otherIs
  obtain ⟨steps, last, drained, _, splits, same⟩ := log_splits_input [encode ['a', 'b']]
    1000 ['x', 'a', 'b', 'y'] _ closing (by simp) (by decide) reached closed
  have bytes := (same _ other (by simp) (by decide) otherReached otherFinished).symm.trans
    otherBytes
  obtain ⟨pieces, shown, source, _⟩ := splits (by rw [bytes]; decide)
  exact ⟨closing, reached, steps, last, drained, bytes, pieces, shown, source⟩

end GitlabRunner.Trace
