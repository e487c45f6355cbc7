import GitlabRunner.TraceTranscript

/-!
# The size limit of the log

The limit is checked after every rune, when a masked value may just have been replaced by a
longer or a shorter text.
-/

namespace GitlabRunner.Trace

open List Utf8 Buffer

theorem length_next_le (tree : Option MaskTree) (sofar : Transcript) (rune : Char) :
    (sofar.next tree rune).log.length ≤ sofar.log.length + 8 := by
  have width : (String.utf8EncodeChar rune).length ≤ 4 := by
    rw [String.length_utf8EncodeChar]
    exact Char.utf8Size_le_four rune
  have replaced : (encode maskedText.toList).length = 8 := by decide
  unfold Transcript.next Transcript.log
  dsimp only
  split
  · simp only [length_append, length_nil]
    omega
  · split
    · simp only [length_append, length_nil]
      omega
    · split
      · simp only [length_append, length_nil, replaced]
        omega
      · simp only [length_append]
        omega
variable {limit : Int} {tree : Option MaskTree}

theorem length_of_running {runes : List Char}
    (positive : 1 ≤ limit) (running : (limited tree limit runes).2 = false) :
    ((transcript tree runes).log.length : Int) < limit := by
  induction runes using List.reverseRecOn with
  | nil => exact Int.lt_of_lt_of_le Int.zero_lt_one positive
  | append_singleton runes rune _ =>
    rw [limited_concat] at running
    have whole := @limited_running limit tree runes
    rcases sofarEq : limited tree limit runes with ⟨sofar, already⟩
    rw [sofarEq] at running whole
    cases already with
    | true => cases running
    | false =>
      have sofarIs : sofar = transcript tree runes := whole rfl
      rw [transcript_concat, ← sofarIs]
      exact Int.not_le.mp (of_decide_eq_false running)

theorem limited_append_ended {runes : List Char}
    (ended : (limited tree limit runes).2 = true) (more : List Char) :
    (limited tree limit (runes ++ more)).2 = true := by
  induction more using List.reverseRecOn with
  | nil => rwa [append_nil]
  | append_singleton more rune ih =>
    rw [← append_assoc, limited_concat_stopped ih]
    exact ih

theorem finalLog_running {runes : List Char} (running : (limited tree limit runes).2 = false) :
    finalLog tree limit runes = (transcript tree runes).log := by
  rw [finalLog, limited_running running, running]
  exact append_nil _

def LogReaches (limit : Int) (buffer : Buffer) (events : List Event) : Prop :=
  ∃ earlier later state, events = earlier ++ later ∧ buffer.run earlier = some state ∧
    limit ≤ (state.log.length : Int)

theorem length_log {buffer : Buffer} {done : List Char} (follows : Follows tree limit buffer done) :
    buffer.log.length = (finalLog tree limit done).length := by
  rw [← follows.log, bytesOf, length_map]

theorem Follows.ended {buffer : Buffer}
    {done : List Char} (follows : Follows tree limit buffer done) (positive : 1 ≤ limit)
    (long : limit ≤ (buffer.log.length : Int)) : (limited tree limit done).2 = true := by
  cases running : (limited tree limit done).2 with
  | true => rfl
  | false =>
    have short := length_of_running positive running
    rw [length_log follows, finalLog_running running] at long
    exact absurd short (Int.not_lt.mpr long)

/-- The limit is reached in a run exactly if the input is cut at it. -/
theorem logReaches_iff {masked : List (List UInt8)} {events : List Event}
    {last : Buffer} (positive : 1 ≤ limit) (quiet : ∀ values, Event.setMasked values ∉ events)
    (reached : (start limit masked).run events = some last) :
    LogReaches limit (start limit masked) events ↔ last.stopped = true := by
  constructor
  · rintro ⟨earlier, later, state, rfl, reachedState, long⟩
    have quietEarlier : ∀ values, Event.setMasked values ∉ earlier :=
      fun values member => quiet values (mem_append_left _ member)
    have quietLater : ∀ values, Event.setMasked values ∉ later :=
      fun values member => quiet values (mem_append_right _ member)
    have continued : state.run later = some last := by
      unfold run at reached reachedState ⊢
      rwa [ActionRuns.run_append, reachedState] at reached
    obtain ⟨done, _, follows⟩ :=
      run_follows (start_follows limit masked) quietEarlier reachedState
    obtain ⟨more, _, followsLast⟩ := run_follows follows quietLater continued
    rw [followsLast.stopped]
    exact limited_append_ended (follows.ended positive long) more
  · intro stopped
    obtain ⟨done, _, follows⟩ := run_follows (start_follows limit masked) quiet reached
    refine ⟨events, [], last, (append_nil events).symm, reached, ?_⟩
    obtain ⟨_, _, _, _, _, same, long⟩ := limited_ended (follows.stopped.symm.trans stopped)
    rw [length_log follows, finalLog, same, length_append]
    omega

theorem finalLog_ended {runes : List Char}
    (positive : 1 ≤ limit) (ended : (limited tree limit runes).2 = true) :
    ∃ before after, runes = before ++ after ∧
      limit ≤ ((transcript tree before).log.length : Int) ∧
      ((transcript tree before).log.length : Int) ≤ limit + 7 ∧
      finalLog tree limit runes = (transcript tree before).log ++ exceededText limit := by
  obtain ⟨before, rune, after, runesEq, running, same, long⟩ := limited_ended ended
  refine ⟨before ++ [rune], after, by simp [runesEq], long, ?_, ?_⟩
  · have short := length_of_running positive running
    have grown := length_next_le tree (transcript tree before) rune
    rw [transcript_concat]
    omega
  · rw [finalLog, same, if_pos ended]

theorem reader_drains {masked : List (List UInt8)} {events : List Event}
    {state : Buffer} (quiet : ∀ values, Event.setMasked values ∉ events)
    (reached : (start limit masked).run events = some state) :
    ∃ steps drained, state.run (List.replicate steps .process) = some drained ∧
      drained.readable = false := by
  obtain ⟨steps, drained, ran, _, ended⟩ := drains state
  refine ⟨steps, drained, ran, ?_⟩
  rcases ended with finished | ⟨waiting, _⟩
  · obtain ⟨done, _, follows⟩ := run_follows (start_follows limit masked) quiet reached
    obtain ⟨more, _, followsDrained⟩ := run_follows follows (quiet_process steps) ran
    simp [readable, (followsDrained.finished finished).2.1, fullRune]
  · exact waiting

/-- The log limit is enforced.  After `Close` the goroutine ends and has read the
whole input.  If the log was at some moment as long as the limit, it is the
transcript up to the rune that reached the limit, at most seven bytes too long,
and one message; otherwise it is the transcript of the whole input, shorter than
the limit.  At every moment before, the goroutine takes all the runes that were
written. -/
theorem limit_enforced (limit : Int) (masked : List (List UInt8)) (events : List Event)
    (closing : Buffer) (positive : 1 ≤ limit) (quiet : ∀ values, Event.setMasked values ∉ events)
    (reached : (start limit masked).run events = some closing) (closed : closing.closed = true) :
    (∃ steps last, closing.run (List.replicate steps .process) = some last ∧
      last.finished = true ∧ last.unread = [] ∧
      (LogReaches limit (start limit masked) (events ++ List.replicate steps .process) →
        ∃ before after, runes (writtenBy events) = before ++ after ∧
          limit ≤ ((transcript (maskTreeOf masked) before).log.length : Int) ∧
          ((transcript (maskTreeOf masked) before).log.length : Int) ≤ limit + 7 ∧
          last.bytes = (transcript (maskTreeOf masked) before).log ++ exceededText limit) ∧
      (¬ LogReaches limit (start limit masked) (events ++ List.replicate steps .process) →
        last.bytes = (transcript (maskTreeOf masked) (runes (writtenBy events))).log ∧
        (last.bytes.length : Int) < limit)) ∧
    ∀ earlier later state, events = earlier ++ later →
      (start limit masked).run earlier = some state →
      ∃ steps drained, state.run (List.replicate steps .process) = some drained ∧
        drained.readable = false := by
  refine ⟨?_, ?_⟩
  · obtain ⟨steps, last, drained, whole, finished, follows⟩ := ends_of_closed quiet reached closed
    have reaches := logReaches_iff positive (quiet_append_process quiet steps) whole
    rw [follows.stopped] at reaches
    refine ⟨steps, last, drained, finished, (follows.finished finished).2.1, ?_, ?_⟩
    · intro reached
      rw [follows.bytes finished]
      exact finalLog_ended positive (reaches.mp reached)
    · intro notReached
      have running := eq_false_of_ne_true (mt reaches.mpr notReached)
      rw [follows.bytes finished, finalLog_running running]
      exact ⟨rfl, length_of_running positive running⟩
  · rintro earlier later state rfl reachedState
    exact reader_drains (fun values member => quiet values (mem_append_left _ member))
      reachedState

/-- With `ab` masked and a limit of four bytes, the replacement takes the log to
nine bytes; the invalid byte behind it is read and dropped. -/
theorem limit_enforced_replacement :
    ∃ closing, (start 4 [encode ['a', 'b']]).run
        [.write (encode ['x', 'a', 'b']), .process, .process, .process,
          .write [0xff], .close] = some closing ∧
      ∃ steps last, closing.run (List.replicate steps .process) = some last ∧
        last.finished = true ∧ last.unread = [] ∧
        ∃ before, last.bytes =
            (transcript (maskTreeOf [encode ['a', 'b']]) before).log ++ exceededText 4 ∧
          ((transcript (maskTreeOf [encode ['a', 'b']]) before).log.length : Int) ≤ 11 := by
  obtain ⟨closing, reached, closed⟩ := Option.map_eq_some_iff.mp (by decide :
    ((start 4 [encode ['a', 'b']]).run
      [.write (encode ['x', 'a', 'b']), .process, .process, .process,
        .write [0xff], .close]).map closed = some true)
  obtain ⟨full, reachedFull, long⟩ := Option.map_eq_some_iff.mp (by decide :
    ((start 4 [encode ['a', 'b']]).run
      [.write (encode ['x', 'a', 'b']), .process, .process, .process]).map
      (fun buffer => decide (4 ≤ (buffer.log.length : Int))) = some true)
  obtain ⟨steps, last, drained, finished, consumed, ended, _⟩ := (limit_enforced 4
    [encode ['a', 'b']] _ closing (by decide) (by simp) reached closed).1
  obtain ⟨before, _, _, _, short, bytes⟩ := ended
    ⟨[.write (encode ['x', 'a', 'b']), .process, .process, .process],
      [.write [0xff], .close] ++ List.replicate steps .process, full, rfl, reachedFull,
      of_decide_eq_true long⟩
  exact ⟨closing, reached, steps, last, drained, finished, consumed, before, bytes, short⟩

end GitlabRunner.Trace
