import FunctionFlow.Json.ArrayWriter
import FunctionFlow.Proofs.Text.Bytes

/-!
Contract: what a sink holds of an array that was written to it in chunks.

The size of the chunks decides when something is sent, and nothing else.
-/

namespace FunctionFlow

/-! ### Sinks -/

/-- A write fails if it is refused, or if none of its bytes is accepted. -/
def SinkAnswer.Fails (answer : SinkAnswer) : Prop :=
  answer = .refuse ∨ answer = .accept (some 0)

namespace Sink

/-- No write failed. -/
def Sound (sink : Sink) : Prop :=
  ∀ index < sink.writes, ¬ (sink.answer index).Fails

/-- The last write failed, and none before it. -/
def Broken (sink : Sink) : Prop :=
  ∃ last, sink.writes = last + 1 ∧ (sink.answer last).Fails ∧
    ∀ index < last, ¬ (sink.answer index).Fails

/-- From one moment to the other the sink accepts `bytes`, and is not asked to flush. -/
structure Receives (before : Sink) (bytes : List UInt8) (after : Sink) : Prop where
  answer : after.answer = before.answer
  failsFlush : after.failsFlush = before.failsFlush
  bytes : after.bytes = before.bytes ++ bytes

variable {sink after : Sink} {bytes : List UInt8}

theorem Broken.not_sound (broken : sink.Broken) : ¬ sink.Sound := by
  obtain ⟨last, writes, fails, _⟩ := broken
  exact fun sound => sound last (by omega) fails

theorem Sound.attempt (sound : sink.Sound) (passes : ¬ (sink.answer sink.writes).Fails)
    (accepted : List (List UInt8)) : Sound { sink with writes := sink.writes + 1, accepted } := by
  intro index below
  rcases Nat.lt_succ_iff_lt_or_eq.mp below with earlier | rfl
  · exact sound index earlier
  · exact passes

theorem write_cases (sound : sink.Sound) (someBytes : bytes ≠ []) :
    (∃ taken rest after, bytes = taken ++ rest ∧ taken ≠ [] ∧
        sink.write bytes = (some taken.length, after) ∧ sink.Receives taken after ∧ after.Sound) ∨
      ∃ count after, sink.write bytes = (count, after) ∧ (count = none ∨ count = some 0) ∧
        sink.Receives [] after ∧ after.Broken := by
  unfold write
  cases isAnswer : sink.answer sink.writes with
  | refuse =>
    refine .inr ⟨none, { sink with writes := sink.writes + 1 }, rfl, .inl rfl, ⟨rfl, rfl, ?_⟩,
      sink.writes, rfl, .inl isAnswer, sound⟩
    simp [Sink.bytes]
  | accept atMost =>
    have received (taken : List UInt8) : sink.Receives taken
        { sink with writes := sink.writes + 1, accepted := sink.accepted ++ [taken] } :=
      ⟨rfl, rfl, by simp [Sink.bytes]⟩
    cases atMost with
    | none =>
      refine .inl ⟨bytes, [], _, by simp, someBytes, rfl, received bytes, sound.attempt ?_ _⟩
      simp [SinkAnswer.Fails, isAnswer]
    | some bound =>
      cases bound with
      | zero =>
        exact .inr ⟨some 0, _, rfl, .inr rfl, received [], sink.writes, rfl, .inr isAnswer, sound⟩
      | succ bound =>
        refine .inl ⟨bytes.take (bound + 1), bytes.drop (bound + 1), _, by simp, by simpa, rfl,
          received _, sound.attempt ?_ _⟩
        simp [SinkAnswer.Fails, isAnswer]

theorem Receives.append {middle : Sink} {later : List UInt8} (first : sink.Receives bytes middle)
    (second : middle.Receives later after) : sink.Receives (bytes ++ later) after where
  answer := second.answer.trans first.answer
  failsFlush := second.failsFlush.trans first.failsFlush
  bytes := by rw [second.bytes, first.bytes, List.append_assoc]

theorem writeAll_cases (sound : sink.Sound) (bytes : List UInt8) :
    (∃ after, sink.writeAll bytes = (true, after) ∧ sink.Receives bytes after ∧ after.Sound) ∨
      ∃ taken after, sink.writeAll bytes = (false, after) ∧ sink.Receives taken after ∧
        after.Broken ∧ taken <+: bytes ∧ taken ≠ bytes := by
  induction isLength : bytes.length using Nat.strong_induction_on generalizing sink bytes with
  | _ length inductionHypothesis =>
  rw [writeAll]
  by_cases nothing : bytes = []
  · subst nothing
    exact .inl ⟨sink, rfl, ⟨rfl, rfl, by simp⟩, sound⟩
  rw [dif_neg nothing]
  rcases write_cases sound nothing with
    ⟨taken, rest, middle, rfl, someTaken, wrote, received, middleSound⟩ |
    ⟨count, middle, wrote, failed, received, broken⟩
  · obtain ⟨count, isCount⟩ := Nat.exists_eq_succ_of_ne_zero
      (Nat.ne_of_gt (List.length_pos_iff.mpr someTaken))
    have isRest : (taken ++ rest).drop (count + 1) = rest := by
      rw [← Nat.succ_eq_add_one, ← isCount, List.drop_left]
    have shorter : rest.length < length := by
      rw [List.length_append] at isLength
      omega
    rw [wrote, isCount]
    simp only [isRest]
    rcases inductionHypothesis _ shorter middleSound rest rfl with
      ⟨after, ran, goesOn, afterSound⟩ | ⟨more, after, ran, goesOn, broken, isPrefix, missing⟩
    · exact .inl ⟨after, ran, received.append goesOn, afterSound⟩
    · refine .inr ⟨taken ++ more, after, ran, received.append goesOn, broken, ?_, ?_⟩
      · exact (List.prefix_append_right_inj taken).mpr isPrefix
      · exact fun same => missing (List.append_cancel_left same)
  · refine .inr ⟨[], middle, ?_, received, broken, List.nil_prefix, Ne.symm nothing⟩
    rw [wrote]
    rcases failed with rfl | rfl <;> rfl

theorem write_answer (sink : Sink) (bytes : List UInt8) :
    (sink.write bytes).2.answer = sink.answer := by
  unfold write
  cases sink.answer sink.writes <;> rfl

theorem writeAll_answer (sink : Sink) (bytes : List UInt8) :
    (sink.writeAll bytes).2.answer = sink.answer := by
  fun_induction writeAll sink bytes with
  | case1 sink => rfl
  | case2 sink bytes _ count after wrote inductionHypothesis =>
    rw [inductionHypothesis, ← write_answer sink bytes, wrote]
  | case3 sink bytes _ count after _ wrote =>
    rw [← write_answer sink bytes, wrote]

end Sink

/-! ### The text of an array -/

namespace Json

def openText (values : List Json) : List Char :=
  '[' :: [','].intercalate (values.map render)

def arrayText (values : List Json) : List Char :=
  openText values ++ [']']

def arrayBytes (values : List Json) : List UInt8 :=
  Text.utf8 (String.ofList (arrayText values))

theorem intercalate_concat {α : Type} (separator : List α) (items : List (List α))
    (last : List α) :
    separator.intercalate (items ++ [last]) =
      if items = [] then last else separator.intercalate items ++ separator ++ last := by
  induction items with
  | nil => simp
  | cons first rest inductionHypothesis =>
    rw [List.cons_append, List.intercalate_cons_of_ne_nil (by simp), inductionHypothesis]
    by_cases single : rest = []
    · simp [single]
    · simp [single, List.intercalate_cons_of_ne_nil single]

theorem openText_concat (values : List Json) (value : Json) :
    openText (values ++ [value]) =
      openText values ++ (if values.length = 0 then [] else [',']) ++ value.render := by
  rw [openText, List.map_append, List.map_singleton, intercalate_concat]
  by_cases none : values = []
  · simp [openText, none]
  · simp [openText, none]

theorem openText_prefix_concat (values : List Json) (value : Json) :
    openText values <+: openText (values ++ [value]) := by
  rw [openText_concat, List.append_assoc]
  exact List.prefix_append _ _

theorem utf8_arrayText (values : List Json) :
    arrayBytes values = Text.utf8 (String.ofList (openText values) ++ "]") := by
  rw [arrayBytes, arrayText, String.ofList_append]

end Json

theorem Text.utf8_isPrefix {first second : List Char} (isPrefix : first <+: second) :
    utf8 (String.ofList first) <+: utf8 (String.ofList second) := by
  obtain ⟨rest, rfl⟩ := isPrefix
  rw [String.ofList_append, utf8_append]
  exact List.prefix_append _ _

/-! ### Writers -/

inductive WriterCall where
  | write (value : Json)
  | finish
  | abandon

namespace ArrayWriter

/-- Does what is asked. Nothing is reported of a writer that is abandoned. -/
def serve (writer : ArrayWriter) : WriterCall → Option WriteFault × ArrayWriter
  | .write value => writer.write value
  | .finish => writer.finish
  | .abandon => (none, writer.abandon)

/-- The writer after everything was asked in turn, whatever was reported on the way. -/
def after (writer : ArrayWriter) (calls : List WriterCall) : ArrayWriter :=
  calls.foldl (fun writer call => (writer.serve call).2) writer

theorem after_append (writer : ArrayWriter) (first second : List WriterCall) :
    writer.after (first ++ second) = (writer.after first).after second :=
  List.foldl_append

variable {writer : ArrayWriter}

theorem flushChunk_answer (writer : ArrayWriter) :
    writer.flushChunk.2.sink.answer = writer.sink.answer := by
  rw [flushChunk]
  split
  · rfl
  · rw [← Sink.writeAll_answer writer.sink writer.buffer.toUTF8.toList]
    rcases writer.sink.writeAll writer.buffer.toUTF8.toList with ⟨wrote, sink⟩
    cases wrote <;> rfl

theorem flushChunk_cases (isOpen : writer.isOpen = true) (sound : writer.sink.Sound) :
    (∃ sink, writer.flushChunk = (none, { writer with sink, buffer := "" }) ∧
        writer.sink.Receives (Text.utf8 writer.buffer) sink ∧ sink.Sound) ∨
      ∃ taken sink, writer.flushChunk =
          (some .lostChunk, { writer with sink, buffer := "", isOpen := false }) ∧
        writer.sink.Receives taken sink ∧ sink.Broken ∧ taken <+: Text.utf8 writer.buffer ∧
        taken ≠ Text.utf8 writer.buffer := by
  rw [flushChunk]
  by_cases empty : writer.buffer = ""
  · refine .inl ⟨writer.sink, ?_, ⟨rfl, rfl, ?_⟩, sound⟩
    · simp [empty]
    · simp [empty]
  · have notEmpty : (writer.buffer.isEmpty || !writer.isOpen) = false := by
      simp [isOpen, empty]
    rw [if_neg (by simp [notEmpty])]
    rcases Sink.writeAll_cases sound (Text.utf8 writer.buffer) with
      ⟨sink, ran, received, afterSound⟩ | ⟨taken, sink, ran, received, broken, isPrefix, missing⟩
    · exact .inl ⟨sink, by rw [Text.utf8] at ran; rw [ran], received, afterSound⟩
    · exact .inr ⟨taken, sink, by rw [Text.utf8] at ran; rw [ran], received, broken, isPrefix,
        missing⟩

/-- Nothing was lost: what was passed on and what was not yet make up the text of `values`. -/
structure Going (failsFlush : Bool) (values : List Json) (writer : ArrayWriter) : Prop where
  isOpen : writer.isOpen = true
  sound : writer.sink.Sound
  failsFlush : writer.sink.failsFlush = failsFlush
  collected : writer.sink.bytes ++ Text.utf8 writer.buffer =
    Text.utf8 (String.ofList (Json.openText values))
  records : writer.records = values.length

/-- A write failed. The sink is not written to again, and holds less than `text`. -/
structure Lost (text : List UInt8) (writer : ArrayWriter) : Prop where
  closed : writer.isOpen = false
  broken : writer.sink.Broken
  isPrefix : writer.sink.bytes <+: text
  missing : writer.sink.bytes ≠ text

theorem Lost.extend {text longer : List UInt8} (lost : writer.Lost text)
    (isPrefix : text <+: longer) : writer.Lost longer where
  closed := lost.closed
  broken := lost.broken
  isPrefix := lost.isPrefix.trans isPrefix
  missing := by
    intro same
    have back : text <+: writer.sink.bytes := same ▸ isPrefix
    exact lost.missing (lost.isPrefix.eq_of_length_le back.length_le)

theorem flushChunk_passes {text : List UInt8} (isOpen : writer.isOpen = true)
    (sound : writer.sink.Sound)
    (collected : writer.sink.bytes ++ Text.utf8 writer.buffer = text) :
    (∃ sink, writer.flushChunk = (none, { writer with sink, buffer := "" }) ∧ sink.Sound ∧
        sink.failsFlush = writer.sink.failsFlush ∧ sink.bytes = text) ∨
      ∃ writerAfter, writer.flushChunk = (some .lostChunk, writerAfter) ∧
        writerAfter.Lost text := by
  rcases flushChunk_cases isOpen sound with ⟨sink, ran, received, afterSound⟩ |
    ⟨taken, sink, ran, received, broken, isPrefix, missing⟩
  · exact .inl ⟨sink, ran, afterSound, received.failsFlush, received.bytes.trans collected⟩
  · refine .inr ⟨_, ran, rfl, broken, ?_, ?_⟩
    · rw [← collected, received.bytes]
      exact (List.prefix_append_right_inj _).mpr isPrefix
    · rw [← collected, received.bytes]
      exact fun same => missing (List.append_cancel_left same)

theorem fresh_going (answer : Nat → SinkAnswer) (failsFlush : Bool) (threshold : Nat) :
    (fresh (.fresh answer failsFlush) threshold).Going failsFlush [] where
  isOpen := rfl
  sound _ below := absurd below (Nat.not_lt_zero _)
  failsFlush := rfl
  collected := rfl
  records := rfl

/-- The writer with one more element, none of it passed on. -/
def collect (writer : ArrayWriter) (value : Json) : ArrayWriter :=
  { writer with
    buffer :=
      writer.buffer ++ (if writer.records = 0 then "" else ",") ++ String.ofList value.render
    records := writer.records + 1 }

theorem write_eq (writer : ArrayWriter) (value : Json) :
    writer.write value =
      if writer.threshold ≤ (writer.collect value).buffer.utf8ByteSize then
        (writer.collect value).flushChunk
      else (none, writer.collect value) :=
  rfl

section

variable {failsFlush : Bool} {values : List Json} (going : writer.Going failsFlush values)
include going

theorem Going.collect (value : Json) :
    (writer.collect value).Going failsFlush (values ++ [value]) where
  isOpen := going.isOpen
  sound := going.sound
  failsFlush := going.failsFlush
  records := by simp [ArrayWriter.collect, going.records]
  collected := by
    have separator : (if writer.records = 0 then "" else ",") =
        String.ofList (if values.length = 0 then [] else [',']) := by
      rw [going.records]
      split <;> rfl
    simp only [ArrayWriter.collect, Json.openText_concat, String.ofList_append, separator,
      Text.utf8_append, ← going.collected, List.append_assoc]

theorem Going.write (value : Json) :
    (writer.write value).2.Going failsFlush (values ++ [value]) ∨
      (writer.write value).2.Lost
        (Text.utf8 (String.ofList (Json.openText (values ++ [value])))) := by
  have holds := going.collect value
  rw [write_eq]
  by_cases full : writer.threshold ≤ (writer.collect value).buffer.utf8ByteSize
  · rw [if_pos full]
    rcases flushChunk_passes holds.isOpen holds.sound holds.collected with
      ⟨sink, ran, sound, sameFlush, bytes⟩ | ⟨_, ran, lost⟩
    · rw [ran]
      refine .inl ⟨holds.isOpen, sound, sameFlush.trans holds.failsFlush, ?_, holds.records⟩
      simpa using bytes
    · rw [ran]
      exact .inr lost
  · rw [if_neg full]
    exact .inl holds

theorem Going.close :
    (∃ sink, writer.close.flushChunk = (none, { writer with sink, buffer := "" }) ∧ sink.Sound ∧
        sink.failsFlush = failsFlush ∧ sink.bytes = Json.arrayBytes values) ∨
      ∃ writerAfter, writer.close.flushChunk = (some .lostChunk, writerAfter) ∧
        writerAfter.Lost (Json.arrayBytes values) := by
  have collected : writer.close.sink.bytes ++ Text.utf8 writer.close.buffer =
      Json.arrayBytes values := by
    rw [Json.utf8_arrayText, Text.utf8_append, ← going.collected, List.append_assoc,
      ← Text.utf8_append]
    rfl
  have isOpen : writer.close.isOpen = true := going.isOpen
  rcases flushChunk_passes isOpen going.sound collected with
    ⟨sink, ran, sound, sameFlush, bytes⟩ | lost
  · exact .inl ⟨sink, ran, sound, sameFlush.trans going.failsFlush, bytes⟩
  · exact .inr lost

end

/-! #### Ends of arrays -/

theorem finish_of_lost {fault : WriteFault} {after : ArrayWriter}
    (ran : writer.close.flushChunk = (some fault, after)) :
    writer.finish = (some fault, after) := by
  rw [finish, ran]

theorem finish_of_passed {after : ArrayWriter} (ran : writer.close.flushChunk = (none, after))
    (isOpen : after.isOpen = true) :
    writer.finish = (if after.sink.failsFlush then some .unflushed else none,
      { after with sink := after.sink.flush.2, isOpen := false }) := by
  rw [finish, ran]
  simp only [isOpen, if_true]
  refine Prod.ext ?_ rfl
  show (if !after.sink.failsFlush then none else some WriteFault.unflushed) = _
  cases after.sink.failsFlush <;> rfl

theorem abandon_of_lost {fault : WriteFault} {after : ArrayWriter} (isOpen : writer.isOpen = true)
    (ran : writer.close.flushChunk = (some fault, after)) (closed : after.isOpen = false) :
    writer.abandon = after := by
  simp [abandon, isOpen, ran, closed]

theorem abandon_of_passed {after : ArrayWriter} (isOpen : writer.isOpen = true)
    (ran : writer.close.flushChunk = (none, after)) (stillOpen : after.isOpen = true) :
    writer.abandon = { after with sink := after.sink.flush.2, isOpen := false } := by
  simp [abandon, isOpen, ran, stillOpen]

def Ended (values : List Json) (writer : ArrayWriter) : Prop :=
  (writer.sink.Sound ∧ writer.sink.bytes = Json.arrayBytes values) ∨
    writer.Lost (Json.arrayBytes values)

theorem Going.abandon {failsFlush : Bool} {values : List Json}
    (going : writer.Going failsFlush values) : writer.abandon.Ended values := by
  rcases going.close with ⟨sink, ran, sound, _, bytes⟩ | ⟨after, ran, lost⟩
  · rw [abandon_of_passed going.isOpen ran going.isOpen]
    exact .inl ⟨sound, bytes⟩
  · rw [abandon_of_lost going.isOpen ran lost.closed]
    exact .inr lost

theorem Going.finish {failsFlush : Bool} {values : List Json}
    (going : writer.Going failsFlush values) :
    writer.finish.2.Ended values ∧
      (writer.finish.1 = none ↔ writer.finish.2.sink.Sound ∧ failsFlush = false) := by
  rcases going.close with ⟨sink, ran, sound, sameFlush, bytes⟩ | ⟨after, ran, lost⟩
  · rw [finish_of_passed ran going.isOpen]
    refine ⟨.inl ⟨sound, bytes⟩, ?_⟩
    have flushedSound : sink.flush.2.Sound := sound
    simp only [sameFlush, flushedSound, true_and]
    cases failsFlush <;> simp
  · rw [finish_of_lost ran]
    exact ⟨.inr lost, by simp [lost.broken.not_sound]⟩

/-! #### Writers that are closed -/

theorem flushChunk_closed (closed : writer.isOpen = false) :
    writer.flushChunk = (none, { writer with buffer := "" }) := by
  simp [flushChunk, closed]

theorem finish_closed (closed : writer.isOpen = false) :
    writer.finish = (some .alreadyClosed, { writer with buffer := "" }) := by
  have closeClosed : writer.close.isOpen = false := closed
  rw [finish, flushChunk_closed closeClosed]
  simp [close, closed]

theorem serve_closed (closed : writer.isOpen = false) (call : WriterCall) :
    (writer.serve call).2.isOpen = false ∧ (writer.serve call).2.sink = writer.sink := by
  cases call with
  | write value =>
    have collectedClosed : (writer.collect value).isOpen = false := closed
    rw [serve, write_eq, flushChunk_closed collectedClosed]
    split <;> exact ⟨closed, rfl⟩
  | finish =>
    rw [serve, finish_closed closed]
    exact ⟨closed, rfl⟩
  | abandon => simp [serve, abandon, closed]

theorem Lost.serve {text : List UInt8} (lost : writer.Lost text) (call : WriterCall) :
    (writer.serve call).2.Lost text := by
  obtain ⟨closed, sameSink⟩ := serve_closed lost.closed call
  constructor
  case closed => exact closed
  all_goals rw [sameSink]
  case broken => exact lost.broken
  case isPrefix => exact lost.isPrefix
  case missing => exact lost.missing

theorem after_closed (closed : writer.isOpen = false) (calls : List WriterCall) :
    (writer.after calls).isOpen = false ∧ (writer.after calls).sink = writer.sink := by
  induction calls generalizing writer with
  | nil => exact ⟨closed, rfl⟩
  | cons call rest inductionHypothesis =>
    obtain ⟨stillClosed, sameSink⟩ := serve_closed closed call
    obtain ⟨endsClosed, endsSame⟩ := inductionHypothesis stillClosed
    exact ⟨endsClosed, endsSame.trans sameSink⟩

/-! #### Sinks of writers -/

theorem serve_answer (writer : ArrayWriter) (call : WriterCall) :
    (writer.serve call).2.sink.answer = writer.sink.answer := by
  have closed : writer.close.flushChunk.2.sink.answer = writer.sink.answer :=
    flushChunk_answer writer.close
  cases call with
  | write value =>
    rw [serve, write_eq]
    split
    · exact flushChunk_answer (writer.collect value)
    · rfl
  | finish =>
    rw [serve, finish]
    generalize writer.close.flushChunk = flushed at closed ⊢
    obtain ⟨fault, ⟨sink, isOpen, _, _, _⟩⟩ := flushed
    cases fault with
    | some fault => exact closed
    | none => cases isOpen <;> exact closed
  | abandon =>
    rw [serve, abandon]
    generalize writer.close.flushChunk = flushed at closed ⊢
    obtain ⟨fault, ⟨sink, isOpen, _, _, _⟩⟩ := flushed
    cases writer.isOpen with
    | false => rfl
    | true => cases isOpen <;> exact closed

theorem after_answer (writer : ArrayWriter) (calls : List WriterCall) :
    (writer.after calls).sink.answer = writer.sink.answer := by
  induction calls generalizing writer with
  | nil => rfl
  | cons call rest inductionHypothesis =>
    exact (inductionHypothesis _).trans (serve_answer writer call)

def Settled (writer : ArrayWriter) : Prop :=
  writer.sink.Sound ∨ writer.sink.Broken ∧ writer.isOpen = false

theorem Settled.serve (settled : writer.Settled) (call : WriterCall) :
    (writer.serve call).2.Settled := by
  cases isOpen : writer.isOpen with
  | false =>
    obtain ⟨stillClosed, sameSink⟩ := serve_closed isOpen call
    rw [Settled, sameSink]
    exact settled.imp_right fun lost => ⟨lost.1, stillClosed⟩
  | true =>
    have sound : writer.sink.Sound := settled.resolve_right fun lost => by simp [isOpen] at lost
    cases call with
    | write value =>
      have collectOpen : (writer.collect value).isOpen = true := isOpen
      rw [ArrayWriter.serve, write_eq]
      rcases flushChunk_cases collectOpen sound with ⟨sink, ran, _, afterSound⟩ |
        ⟨_, sink, ran, _, broken, _⟩
      · rw [ran]
        split
        · exact .inl afterSound
        · exact .inl sound
      · rw [ran]
        split
        · exact .inr ⟨broken, rfl⟩
        · exact .inl sound
    | finish =>
      have closeOpen : writer.close.isOpen = true := isOpen
      rcases flushChunk_cases closeOpen sound with ⟨sink, ran, _, afterSound⟩ |
        ⟨_, sink, ran, _, broken, _⟩
      · rw [ArrayWriter.serve, finish_of_passed ran isOpen]
        exact .inl afterSound
      · rw [ArrayWriter.serve, finish_of_lost ran]
        exact .inr ⟨broken, rfl⟩
    | abandon =>
      have closeOpen : writer.close.isOpen = true := isOpen
      rcases flushChunk_cases closeOpen sound with ⟨sink, ran, _, afterSound⟩ |
        ⟨_, sink, ran, _, broken, _⟩
      · rw [ArrayWriter.serve, abandon_of_passed isOpen ran isOpen]
        exact .inl afterSound
      · rw [ArrayWriter.serve, abandon_of_lost isOpen ran rfl]
        exact .inr ⟨broken, rfl⟩

theorem Settled.after (settled : writer.Settled) (calls : List WriterCall) :
    (writer.after calls).Settled := by
  induction calls generalizing writer with
  | nil => exact settled
  | cons call rest inductionHypothesis => exact inductionHypothesis (settled.serve call)

theorem going_or_lost (answer : Nat → SinkAnswer) (failsFlush : Bool) (threshold : Nat)
    (values : List Json) :
    ((fresh (.fresh answer failsFlush) threshold).after (values.map .write)).Going failsFlush
        values ∨
      ((fresh (.fresh answer failsFlush) threshold).after (values.map .write)).Lost
        (Text.utf8 (String.ofList (Json.openText values))) := by
  induction values using List.reverseRecOn with
  | nil => exact .inl (fresh_going answer failsFlush threshold)
  | append_singleton values value inductionHypothesis =>
    rw [List.map_append, after_append]
    rcases inductionHypothesis with going | lost
    · exact going.write value
    · exact .inr ((lost.serve (.write value)).extend
        (Text.utf8_isPrefix (Json.openText_prefix_concat values value)))

end ArrayWriter

/-- An array is written element by element, with chunks of any size, and is then finished or
abandoned. Where no write fails the sink holds the elements in brackets, with commas between them.
Where one fails the sink holds less than that, from its beginning on. Finishing reports every
failure. Once a write failed nothing is sent, whatever is asked of the writer. -/
theorem array_whole_or_cut (answer : Nat → SinkAnswer) (failsFlush : Bool) (threshold : Nat)
    (values : List Json) :
    let start := ArrayWriter.fresh (.fresh answer failsFlush) threshold
    let writer := start.after (values.map .write)
    (∀ sink ∈ [writer.finish.2.sink, writer.abandon.sink],
      (sink.Sound → sink.bytes = Json.arrayBytes values) ∧
      (¬ sink.Sound → sink.bytes <+: Json.arrayBytes values ∧
        sink.bytes ≠ Json.arrayBytes values)) ∧
    (writer.finish.1 = none ↔ writer.finish.2.sink.Sound ∧ failsFlush = false) ∧
    ∀ calls, ¬ (start.after calls).sink.Sound → (start.after calls).sink.Broken ∧
      ∀ more, (start.after (calls ++ more)).sink = (start.after calls).sink := by
  intro start writer
  have fromEnded {ended : ArrayWriter} (isEnded : ended.Ended values) :
      (ended.sink.Sound → ended.sink.bytes = Json.arrayBytes values) ∧
      (¬ ended.sink.Sound → ended.sink.bytes <+: Json.arrayBytes values ∧
        ended.sink.bytes ≠ Json.arrayBytes values) := by
    rcases isEnded with ⟨sound, whole⟩ | lost
    · exact ⟨fun _ => whole, fun failed => absurd sound failed⟩
    · exact ⟨fun sound => absurd sound lost.broken.not_sound,
        fun _ => ⟨lost.isPrefix, lost.missing⟩⟩
  have ends : writer.finish.2.Ended values ∧ writer.abandon.Ended values ∧
      (writer.finish.1 = none ↔ writer.finish.2.sink.Sound ∧ failsFlush = false) := by
    rcases ArrayWriter.going_or_lost answer failsFlush threshold values with going | lost
    · exact ⟨going.finish.1, going.abandon, going.finish.2⟩
    · have stillLost := lost.extend (Text.utf8_isPrefix (List.prefix_append _ [']']))
      have finished := stillLost.serve .finish
      refine ⟨.inr finished, .inr (stillLost.serve .abandon), ?_⟩
      constructor
      · intro noFault
        simp [writer, start, ArrayWriter.finish_closed lost.closed] at noFault
      · exact fun reported => absurd reported.1 finished.broken.not_sound
  refine ⟨?_, ends.2.2, ?_⟩
  · intro sink member
    rcases List.mem_pair.mp member with rfl | rfl
    · exact fromEnded ends.1
    · exact fromEnded ends.2.1
  · intro calls failed
    have settled : start.Settled := .inl (ArrayWriter.fresh_going answer failsFlush threshold).sound
    obtain ⟨broken, closed⟩ := (settled.after calls).resolve_left failed
    refine ⟨broken, fun more => ?_⟩
    rw [ArrayWriter.after_append]
    exact (ArrayWriter.after_closed closed more).2

end FunctionFlow
