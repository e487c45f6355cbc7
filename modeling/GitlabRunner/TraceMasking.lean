import GitlabRunner.TraceBuffer
import GitlabRunner.WordOccurrences

/-!
# Masked values in the published log

The matcher of the trace buffer compares the masked values with the text since the last
published byte only, and gives this window up as a whole when no value starts with it.
-/

namespace GitlabRunner.Trace

open List Option Utf8 Buffer

/-- The maximal runs of copied bytes of a stretch of the log, in order; some of
them may be empty. -/
def copiedRuns : List LogByte → List (List UInt8)
  | [] => [[]]
  | cell :: cells =>
    match cell.origin, copiedRuns cells with
    | .copied, run :: runs => (cell.byte :: run) :: runs
    | .copied, [] => [[cell.byte]]
    | .inserted, runs => [] :: runs

def Buffer.start (limit : Int) (masked : List (List UInt8)) : Buffer :=
  (Buffer.new.setLimit limit).setMasked masked

/-- No masked value is a substring of a run of copied bytes in `Bytes()`. -/
def Hidden (masked : List (List UInt8)) (buffer : Buffer) : Prop :=
  ∀ value ∈ masked, ∀ run ∈ copiedRuns buffer.published, ¬ value <:+: run

def writtenBy : List Event → List UInt8
  | [] => []
  | .write chunk :: events => chunk ++ writtenBy events
  | _ :: events => writtenBy events

def Buffer.held (buffer : Buffer) : List UInt8 :=
  bytesOf buffer.window ++ String.utf8EncodeChar buffer.nextRune

/-- The condition on one step, where `later` is the input written after it.  If
the step gives up the window, because no masked value starts with it, then no
masked value begins inside the window and runs on into the input that will still
be read.  If the step ends the log, then the window contains no masked value. -/
def WindowClear (masked : List (List UInt8)) (buffer : Buffer)
    (later : List UInt8) : Event → Prop
  | .process =>
    if buffer.readable then
      buffer.stopped = false → (∀ value ∈ masked, ¬ buffer.held <+: value) →
        ∀ value ∈ masked, ¬ BeginsIn value buffer.held
          (if (buffer.log.length + (String.utf8EncodeChar buffer.nextRune).length : Int) <
              buffer.bytesLimit then
            buffer.readRune.unread ++ later
          else [])
    else ∀ value ∈ masked, ¬ copied value <:+: buffer.window
  | _ => True

def ClearRun (masked : List (List UInt8)) :
    Buffer → List Event → List UInt8 → Prop
  | _, [], _ => True
  | buffer, event :: events, later =>
    WindowClear masked buffer (writtenBy events ++ later) event ∧
      match buffer.step event with
      | none => True
      | some next => ClearRun masked next events later

instance decidableWindowClear (masked : List (List UInt8)) (buffer : Buffer)
    (later : List UInt8) :
    (event : Event) → Decidable (WindowClear masked buffer later event)
  | .process => by
      unfold WindowClear
      infer_instance
  | .write _ => instDecidableTrue
  | .setMasked _ => instDecidableTrue
  | .close => instDecidableTrue

instance decidableClearRun (masked : List (List UInt8)) :
    (buffer : Buffer) → (events : List Event) → (later : List UInt8) →
      Decidable (ClearRun masked buffer events later)
  | _, [], _ => instDecidableTrue
  | buffer, event :: events, later =>
    have : Decidable (match buffer.step event with
        | none => True
        | some next => ClearRun masked next events later) :=
      match buffer.step event with
      | none => instDecidableTrue
      | some next => decidableClearRun masked next events later
    inferInstanceAs (Decidable (WindowClear masked buffer
      (writtenBy events ++ later) event ∧ _))

theorem copiedRuns_eq_cons (cells : List LogByte) :
    ∃ run runs, copiedRuns cells = run :: runs ∧ copied run <+: cells ∧
      ∀ other ∈ runs, copied other <:+: cells := by
  induction cells with
  | nil => exact ⟨[], [], rfl, nil_prefix, by simp⟩
  | cons cell cells ih =>
    obtain ⟨run, runs, runsEq, headPrefix, others⟩ := ih
    have lift : ∀ other, copied other <:+: cells → copied other <:+: cell :: cells :=
      fun other inside => inside.trans (suffix_cons cell cells).isInfix
    rcases cell with ⟨byte, origin⟩
    cases origin with
    | copied =>
      refine ⟨byte :: run, runs, by simp [copiedRuns, runsEq], ?_,
        fun other member => lift other (others other member)⟩
      exact (prefix_cons_inj _).mpr headPrefix
    | inserted =>
      refine ⟨[], run :: runs, by simp [copiedRuns, runsEq], nil_prefix, ?_⟩
      intro other member
      rcases mem_cons.mp member with rfl | member
      · exact lift other headPrefix.isInfix
      · exact lift other (others other member)

theorem infix_of_mem_copiedRuns {cells : List LogByte} {run : List UInt8}
    (member : run ∈ copiedRuns cells) : copied run <:+: cells := by
  obtain ⟨head, runs, runsEq, headPrefix, others⟩ := copiedRuns_eq_cons cells
  rw [runsEq, mem_cons] at member
  rcases member with rfl | member
  · exact headPrefix.isInfix
  · exact others run member

theorem copied_ne_nil {bytes : List UInt8} (nonempty : bytes ≠ []) : copied bytes ≠ [] := by
  simpa [copied] using nonempty

theorem not_mem_copied_of_inserted {cell : LogByte} {bytes : List UInt8}
    (mark : cell.origin = .inserted) : cell ∉ copied bytes := by
  intro member
  obtain ⟨byte, _, rfl⟩ := mem_map.mp member
  cases mark

theorem origin_of_mem_inserted {cell : LogByte} {text : String}
    (member : cell ∈ inserted text) : cell.origin = .inserted := by
  obtain ⟨byte, _, rfl⟩ := mem_map.mp member
  rfl

def Buffer.awaited (buffer : Buffer) (later : List UInt8) : List UInt8 :=
  if buffer.stopped || buffer.finished then [] else buffer.unread ++ later

/-- The masking invariant.  The window is copied text, followed by the limit
message once the log is stopped, and no masked value begins in the published
part of the log and runs on into the window and the awaited input. -/
structure Masking (masked : List (List UInt8)) (buffer : Buffer)
    (later : List UInt8) : Prop where
  keys : ∃ tree, buffer.maskTree = some tree ∧ ∀ key, key ∈ tree.keys ↔ key ∈ masked
  clear : ∃ text marks, buffer.window = copied text ++ marks ∧
    (∀ cell ∈ marks, cell.origin = .inserted) ∧
    (buffer.stopped = false → marks = []) ∧
    ∀ value ∈ masked, ¬ BeginsIn (copied value) buffer.published
      (copied text ++ copied (buffer.awaited later))

/-- The stream invariant: what is left of the input is UTF-8, and nothing is
written after the stream was closed. -/
structure Streaming (buffer : Buffer) (later : List UInt8) : Prop where
  utf8 : ∃ text, buffer.unread ++ later = encode text
  ended : buffer.closed = true → later = []
variable {buffer : Buffer} {masked : List (List UInt8)} {later : List UInt8}

theorem Masking.hidden (nonempty : ∀ value ∈ masked, value ≠ [])
    (masking : Masking masked buffer later) : Hidden masked buffer := by
  intro value member run runMember inside
  obtain ⟨text, marks, _, _, _, clear⟩ := masking.clear
  apply clear value member
  have occurs : copied value <:+: buffer.published :=
    (inside.map _).trans (infix_of_mem_copiedRuns runMember)
  simpa using (beginsIn_of_occurs (copied_ne_nil (nonempty value member))
    occurs).append_after (copied text ++ copied (buffer.awaited later))

theorem Streaming.readRune (streaming : Streaming buffer later) (canRead : buffer.readable = true) :
    buffer.unread = String.utf8EncodeChar buffer.nextRune ++ buffer.readRune.unread ∧
      Streaming buffer.readRune later := by
  obtain ⟨text, content⟩ := streaming.utf8
  have split : ∃ rune rest text', buffer.unread = String.utf8EncodeChar rune ++ rest ∧
      rest ++ later = encode text' := by
    rcases Bool.or_eq_true_iff.mp canRead with full | atEnd
    · obtain ⟨rune, rest, text', _, unreadEq, restEq⟩ :=
        exists_rune_of_fullRune content full
      exact ⟨rune, rest, text', unreadEq, restEq⟩
    · obtain ⟨closed, remaining⟩ := Bool.and_eq_true_iff.mp atEnd
      have laterNil := streaming.ended closed
      rw [laterNil, append_nil] at content
      cases text with
      | nil => simp [content] at remaining
      | cons rune text => exact ⟨rune, encode text, text, content, by simp [laterNil]⟩
  obtain ⟨rune, rest, text', unreadEq, restEq⟩ := split
  have decoded := decodeRune_encode_append rune rest
  rw [← unreadEq] at decoded
  have runeEq : buffer.nextRune = rune := by rw [nextRune, decoded]
  have restUnread : buffer.readRune.unread = rest := by
    change buffer.unread.drop (decodeRune buffer.unread).2 = rest
    rw [decoded, unreadEq]
    simp
  refine ⟨by rw [runeEq, restUnread, unreadEq], ⟨text', ?_⟩, streaming.ended⟩
  rw [restUnread, restEq]

section

variable (nonempty : ∀ value ∈ masked, value ≠ [])

include nonempty

/-- The heart of the invariant: appending one rune and advancing the log keeps
every masked value out of the published part.  `awaited` is the input that will
be read after the rune, as far as the limit lets it through. -/
theorem advanceLogUnsafe_clear {tree : MaskTree} {held awaited : List UInt8}
    (treeEq : buffer.maskTree = some tree) (keys : ∀ value, value ∈ tree.keys ↔ value ∈ masked)
    (windowEq : buffer.window = copied held) (clear : ∀ value ∈ masked,
      ¬ BeginsIn (copied value) buffer.published (copied held ++ copied awaited))
    (condition : (∀ value ∈ masked, ¬ held <+: value) → ∀ value ∈ masked,
      ¬ BeginsIn value held
        (if (buffer.log.length : Int) < buffer.bytesLimit then awaited else [])) :
    ∃ text, buffer.advanceLogUnsafe.window = copied text ∧ ∀ value ∈ masked,
      ¬ BeginsIn (copied value) buffer.advanceLogUnsafe.published (copied text ++ copied
        (if (buffer.advanceLogUnsafe.log.length : Int) < buffer.advanceLogUnsafe.bytesLimit then
          awaited else [])) := by
  have shorter (value : List UInt8) (published window : List LogByte) (below : Prop)
      [Decidable below] (absent : ¬ BeginsIn (copied value) published (window ++ copied awaited)) :
      ¬ BeginsIn (copied value) published (window ++ copied (if below then awaited else [])) := by
    split
    · exact absent
    · intro occurrence
      apply absent
      simpa [copied] using occurrence.append_after (copied awaited)
  rcases advanceLogUnsafe_cases treeEq with
    ⟨noResult, advanced⟩ | ⟨_, advanced⟩ | ⟨_, _, advanced⟩
  · have sameLength : buffer.advanceLogUnsafe.log.length = buffer.log.length := by
      simp [advanced, advanceAllUnsafe]
    rw [sameLength, (advanceLogUnsafe_frame buffer).2.1]
    refine ⟨[], by simp [advanced, copied], ?_⟩
    intro value member occurrence
    rw [advanced, published_advanceAllUnsafe, windowEq] at occurrence
    rcases beginsIn_append_iff.mp occurrence with before | inside
    · exact shorter value _ _ _ (clear value member) before
    · apply condition ?_ value member (beginsIn_of_map (fun byte => (⟨byte, .copied⟩ : LogByte))
        (fun _ _ same => congrArg LogByte.byte same) inside)
      intro other otherMember starts
      have found : other ∈ tree.search (bytesOf buffer.window) := by
        rw [MaskTree.mem_search, windowEq, bytesOf_copied]
        exact ⟨(keys other).mpr otherMember, starts⟩
      simp [noResult] at found
  · refine ⟨[], by simp [advanced, copied], ?_⟩
    intro value member
    apply shorter
    intro occurrence
    rw [advanced] at occurrence
    simp only [published_advanceAllUnsafe, published_append,
      published_truncate, window_append, window_truncate,
      nil_append] at occurrence
    have stopsBefore := occurrence.before_barrier (copied_ne_nil (nonempty value member))
      (fun cell mark => not_mem_copied_of_inserted (origin_of_mem_inserted mark))
      (by decide)
    exact clear value member (by simpa using stopsBefore.append_after _)
  · refine ⟨held, by rw [advanced, windowEq], ?_⟩
    intro value member
    apply shorter
    rw [advanced]
    exact clear value member

/-- `writeRune` keeps the masking invariant when the step meets the
condition. -/
theorem Masking.writeRune (masking : Masking masked buffer later) (unreadEq : buffer.unread =
      String.utf8EncodeChar buffer.nextRune ++ buffer.readRune.unread)
    (active : buffer.stopped = false) (running : buffer.finished = false)
    (condition : (∀ value ∈ masked, ¬ buffer.held <+: value) →
      ∀ value ∈ masked, ¬ BeginsIn value buffer.held
        (if (buffer.log.length + (String.utf8EncodeChar buffer.nextRune).length : Int) <
            buffer.bytesLimit then buffer.readRune.unread ++ later else [])) :
    Masking masked ((buffer.readRune.writeRune buffer.nextRune).1.setStopped
        (buffer.readRune.writeRune buffer.nextRune).2) later := by
  obtain ⟨tree, treeEq, keys⟩ := masking.keys
  obtain ⟨text, marks, windowEq, _, unmarked, clear⟩ := masking.clear
  rw [unmarked active, append_nil] at windowEq
  let appended := buffer.readRune.append (copied (String.utf8EncodeChar buffer.nextRune))
  let written := appended.advanceLogUnsafe
  let awaited := buffer.readRune.unread ++ later
  have heldEq : buffer.held = text ++ String.utf8EncodeChar buffer.nextRune := by
    rw [Buffer.held, windowEq, bytesOf_copied]
  have appendedWindow : appended.window = copied buffer.held := by
    rw [Buffer.window_append, heldEq, copied_append, ← windowEq]
    rfl
  have appendedClear : ∀ value ∈ masked, ¬ BeginsIn (copied value) appended.published
        (copied buffer.held ++ copied awaited) := by
    intro value member
    have before := clear value member
    simp only [Buffer.awaited, active, running, Bool.or_self,
      Bool.false_eq_true, if_false] at before
    rw [unreadEq] at before
    rw [Buffer.published_append, Buffer.published_readRune, heldEq]
    simpa [awaited] using before
  have logEq : (appended.log.length : Int) =
      buffer.log.length + (String.utf8EncodeChar buffer.nextRune).length := by
    simp [appended, Buffer.append, Buffer.readRune, copied]
  have treeAppended : appended.maskTree = some tree := treeEq
  obtain ⟨text', writtenWindow, absent⟩ : ∃ text', written.window = copied text' ∧
      ∀ value ∈ masked, ¬ BeginsIn (copied value) written.published (copied text' ++ copied
        (if (written.log.length : Int) < written.bytesLimit then awaited else [])) := by
    refine advanceLogUnsafe_clear nonempty treeAppended keys appendedWindow appendedClear ?_
    rw [logEq]
    exact condition
  have frame := Buffer.advanceLogUnsafe_frame appended
  have treeWritten : written.maskTree = some tree := frame.1.trans treeEq
  have unreadWritten : written.unread = buffer.readRune.unread := frame.2.2.1
  have runningWritten : written.finished = false := frame.2.2.2.2.trans running
  have outcome : buffer.readRune.writeRune buffer.nextRune =
      if (written.log.length : Int) < written.bytesLimit then (written, false)
      else (written.append (inserted written.limitExceededMessage), true) := rfl
  rw [outcome]
  split
  · rename_i below
    simp only [below, if_true] at absent
    refine ⟨⟨tree, treeWritten, keys⟩, text', [], ?_, by simp, by simp, ?_⟩
    · simpa using writtenWindow
    · have awaitedEq : (written.setStopped false).awaited later = awaited := by
        simp [Buffer.awaited, Buffer.setStopped, runningWritten, unreadWritten, awaited]
      simpa only [Buffer.published_setStopped, awaitedEq] using absent
  · rename_i reached
    simp only [reached, if_false] at absent
    refine ⟨⟨tree, treeWritten, keys⟩, text', inserted written.limitExceededMessage,
      ?_, fun cell => origin_of_mem_inserted, by simp [Buffer.setStopped], ?_⟩
    · simp [writtenWindow]
    · have awaitedEq : ((written.append (inserted written.limitExceededMessage)).setStopped
            true).awaited later = [] := rfl
      simpa only [Buffer.published_setStopped, Buffer.published_append, awaitedEq] using absent

/-- The last iteration of `process` keeps the masking invariant when the window
contains no masked value. -/
theorem Masking.finish (masking : Masking masked buffer later)
    (condition : ∀ value ∈ masked, ¬ copied value <:+: buffer.window) :
    Masking masked buffer.finish later := by
  obtain ⟨text, marks, windowEq, marked, _, clear⟩ := masking.clear
  have textClear : ∀ value ∈ masked,
      ¬ BeginsIn (copied value) (buffer.published ++ copied text) [] := by
    intro value member occurrence
    rcases beginsIn_append_iff.mp occurrence with before | inside
    · rw [append_nil] at before
      exact clear value member (before.append_after _)
    · apply condition value member
      rw [windowEq]
      exact inside.occurs.trans (prefix_append _ _).isInfix
  refine ⟨masking.keys, [], [], by simp [copied], by simp, by simp, ?_⟩
  intro value member occurrence
  have awaitedEq : buffer.finish.awaited later = [] := by simp [Buffer.awaited, Buffer.finish]
  rw [Buffer.published_finish, windowEq, awaitedEq, ← append_assoc] at occurrence
  by_cases unmarked : marks = []
  · rw [unmarked, append_nil] at occurrence
    exact textClear value member (by simpa [copied] using occurrence)
  · exact textClear value member (occurrence.before_barrier (copied_ne_nil (nonempty value member))
        (fun cell mark => not_mem_copied_of_inserted (marked cell mark)) unmarked)

end

theorem Masking.ignore (masking : Masking masked buffer later)
    (ignoring : buffer.stopped = true) : Masking masked buffer.readRune later := by
  have awaitedEq : buffer.readRune.awaited later = buffer.awaited later := by
    simp [awaited, readRune, ignoring]
  obtain ⟨text, marks, windowEq, marked, unmarked, clear⟩ := masking.clear
  exact ⟨masking.keys, text, marks, windowEq, marked, unmarked,
    by simpa only [published_readRune, awaitedEq] using clear⟩

theorem writtenBy_eq_nil_of_closed {last : Buffer} {events : List Event}
    (closed : buffer.closed = true) (reached : buffer.run events = some last) :
    writtenBy events = [] := by
  induction events generalizing buffer with
  | nil => rfl
  | cons event events ih =>
    obtain ⟨next, stepTo, reachedNext⟩ := ActionRuns.run_cons_eq_some.mp reached
    cases event with
    | write chunk => simp [step, closed] at stepTo
    | setMasked values => exact ih (step_closed closed stepTo) reachedNext
    | close => exact ih (step_closed closed stepTo) reachedNext
    | process => exact ih (step_closed closed stepTo) reachedNext

/-- One iteration of `process` that meets the condition keeps both
invariants. -/
theorem process_invariants {next : Buffer} (nonempty : ∀ value ∈ masked, value ≠ [])
    (masking : Masking masked buffer later) (streaming : Streaming buffer later)
    (condition : WindowClear masked buffer later .process) (stepTo : buffer.process = some next) :
    Masking masked next later ∧ Streaming next later := by
  obtain ⟨running, ⟨canRead, ignoring, rfl⟩ | ⟨canRead, active, rfl⟩ |
    ⟨waiting, ended, rfl⟩⟩ := process_cases stepTo
  · exact ⟨masking.ignore ignoring, (streaming.readRune canRead).2⟩
  · obtain ⟨unreadEq, streaming⟩ := streaming.readRune canRead
    simp only [WindowClear, canRead, if_true] at condition
    refine ⟨masking.writeRune nonempty unreadEq active running (condition active), ?_⟩
    obtain ⟨unreadWritten, closedWritten⟩ :=
      writeRune_stream buffer.readRune buffer.nextRune
    exact ⟨by simpa only [setStopped, unreadWritten] using streaming.utf8,
      by simpa only [setStopped, closedWritten] using streaming.ended⟩
  · simp only [WindowClear, waiting, Bool.false_eq_true, if_false] at condition
    exact ⟨masking.finish nonempty condition, streaming.utf8, streaming.ended⟩

/-- The run lemma: every run that meets the condition keeps the masking
invariant. -/
theorem run_masking {last : Buffer} {events : List Event} (nonempty : ∀ value ∈ masked, value ≠ [])
    (noReset : ∀ values, Event.setMasked values ∉ events)
    (closedLast : Event.close ∈ events → later = [])
    (masking : Masking masked buffer (writtenBy events ++ later))
    (streaming : Streaming buffer (writtenBy events ++ later))
    (condition : ClearRun masked buffer events later) (reached : buffer.run events = some last) :
    Masking masked last later := by
  induction events generalizing buffer with
  | nil =>
    obtain rfl := some.inj reached
    exact masking
  | cons event events ih =>
    obtain ⟨next, stepTo, reached⟩ := ActionRuns.run_cons_eq_some.mp reached
    simp only [ClearRun, stepTo] at condition
    have keepsReset : ∀ values, Event.setMasked values ∉ events :=
      fun values member => noReset values (mem_cons_of_mem _ member)
    have keepsClosed : Event.close ∈ events → later = [] :=
      fun member => closedLast (mem_cons_of_mem _ member)
    suffices Masking masked next (writtenBy events ++ later) ∧
        Streaming next (writtenBy events ++ later) from
      ih keepsReset keepsClosed this.1 this.2 condition.2 reached
    cases event with
    | write chunk =>
      by_cases closed : buffer.closed = true
      · simp [step, closed] at stepTo
      · obtain rfl : { buffer with unread := buffer.unread ++ chunk } = next := by
          simpa [step, closed] using stepTo
        obtain ⟨text, marks, windowEq, marked, unmarked, clear⟩ := masking.clear
        refine ⟨⟨masking.keys, text, marks, windowEq, marked, unmarked, ?_⟩,
          ?_, fun closedNext => (closed closedNext).elim⟩
        · simpa [awaited, writtenBy, published] using clear
        · simpa [writtenBy] using streaming.utf8
    | setMasked values => exact (noReset values (by simp)).elim
    | close =>
      obtain rfl := some.inj stepTo
      have laterNil := closedLast (by simp)
      have noWrites := writtenBy_eq_nil_of_closed rfl reached
      exact ⟨⟨masking.keys, masking.clear⟩, streaming.utf8,
        fun _ => by rw [noWrites, laterNil, append_nil]⟩
    | process => exact process_invariants nonempty masking streaming condition.1 stepTo

theorem start_masking (limit : Int) (later : List UInt8) (nonempty : ∀ value ∈ masked, value ≠ [])
    (some_masked : masked ≠ []) : Masking masked (start limit masked) later := by
  refine ⟨⟨masked.foldl MaskTree.add MaskTree.new, ?_, ?_⟩, [], [], rfl, by simp,
    by simp, ?_⟩
  · simp [start, setMasked, some_masked]
  · intro key
    rw [MaskTree.mem_keys_foldl_add]
    simp only [MaskTree.new, not_mem_nil, false_or]
    exact ⟨And.left, fun member => ⟨member, nonempty key member⟩⟩
  · intro value _
    exact not_beginsIn_nil

end GitlabRunner.Trace
