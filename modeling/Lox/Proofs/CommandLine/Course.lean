import Lox.CommandLine.Console
import Lox.Proofs.Session.Records

/-! The course of a command.

What a command writes falls into passages: a text of its own, such as the one that asks
for a line, or all that one run hands on. A console writes one passage after the other, so
its transcript is told by the passages and the ending.
-/

set_option autoImplicit false

namespace Lox

def Source.notes (source : Source) (debug : Bool) : List String :=
  if debug then
    ["[DBG] " ++ ("scanned " ++ toString (source.scan.tokens.length + 1) ++ " tokens"),
      "[DBG] " ++ ("parsed " ++ toString source.program.statements.length ++ " statements")]
  else []

theorem Session.notes_note (session : Session) (text : String) :
    (session.note text).notes =
      session.notes ++ if session.settings.debug then ["[DBG] " ++ text] else [] := by
  unfold note
  split <;> simp

theorem Session.settings_note (session : Session) (text : String) :
    (session.note text).settings = session.settings := by
  unfold note
  split <;> rfl

theorem Session.notes_parse (session : Session) (text : List Char) :
    (session.parse text).2.notes =
      session.notes ++ (Source.ofText text).notes session.settings.debug := by
  simp only [parse, notes_note, settings_note, reportAll_eq, Source.notes]
  split <;> simp

namespace CommandLine

/-- A text that the command writes itself, or a run of a text, with the session behind it. -/
inductive Passage where
  | own (stdout stderr : String)
  | run (text : List Char) (session : Session)

namespace Passage

/-- What it puts on the standard output; a run has its printed lines and reports there. -/
def said : Passage → String
  | .own stdout _ => stdout
  | .run _ session => allLines (session.stream.map Emission.text)

def noted : Passage → String
  | .own _ stderr => stderr
  | .run _ session => allLines session.notes

/-- The statements of the text that parsed, in their written form. -/
def trees : Passage → String
  | .own .. => ""
  | .run text _ => allLines ((Source.ofText text).program.statements.map Stmt.form)

/-- What is noted when the text is read for the sake of its trees. -/
def rereading (environment : Variables) : Passage → String
  | .own .. => ""
  | .run text _ =>
    allLines (environment.limitNotes ++ (Source.ofText text).notes environment.debugging)

/-- The standard output of the passage, with the trees before it if they are shown. -/
def stdout (showTree : Bool) (passage : Passage) : String :=
  (if showTree then passage.trees else "") ++ passage.said

def stderr (showTree : Bool) (environment : Variables) (passage : Passage) : String :=
  (if showTree then passage.rereading environment else "") ++ passage.noted

end Passage

/-- The passages of a command and its ending. -/
structure Course where
  passages : List Passage
  ending : Ending

namespace Course

def ofTranscript (transcript : Transcript) : Course :=
  ⟨[.own transcript.stdout transcript.stderr], transcript.ending⟩

def behind (course : Course) (earlier : List Passage) : Course :=
  ⟨earlier ++ course.passages, course.ending⟩

def transcript (course : Course) (showTree : Bool) (environment : Variables) : Transcript where
  ending := course.ending
  stdout := String.join (course.passages.map (Passage.stdout showTree))
  stderr := String.join (course.passages.map (Passage.stderr showTree environment))

theorem transcript_ofTranscript (transcript : Transcript) (showTree : Bool)
    (environment : Variables) :
    (ofTranscript transcript).transcript showTree environment = transcript := by
  cases showTree <;>
    simp [ofTranscript, Course.transcript, Passage.stdout, Passage.stderr, Passage.said,
      Passage.noted, Passage.trees, Passage.rereading, String.join_nil]

end Course

/-- What a line typed at the prompt asks for. -/
inductive Request where
  | nothing
  | leave
  | run (text : List Char)

def Request.ofLine (typed : List Char) : Request :=
  let text := Text.trimLine typed
  if text = [] then .nothing else if text = "exit".toList then .leave else .run text

/-- The passages that come of it, behind which the console has some session. -/
def Request.passages (session : Session) : Request → List Passage
  | .nothing | .leave => [.own Console.ask ""]
  | .run text => [.own Console.ask "", .run text session]

def ending? : RunEnd → Option Ending
  | .finished _ => none
  | .escaped fault => some (.escaped fault)
  | .unfinished => some .unfinished

namespace Console

def add (console : Console) (passage : Passage) : Console :=
  { console with
    session := match passage with
      | .own .. => console.session
      | .run _ after => after
    stdout := console.stdout ++ passage.stdout console.flags.showTree
    stderr := console.stderr ++ passage.stderr console.flags.showTree console.environment }

def addAll (console : Console) (passages : List Passage) : Console := passages.foldl add console

theorem addAll_append (console : Console) (first second : List Passage) :
    console.addAll (first ++ second) = (console.addAll first).addAll second :=
  List.foldl_append

theorem addAll_finish (passages : List Passage) (ending : Ending) : ∀ console : Console,
    (console.addAll passages).finish ending =
      ⟨ending,
        console.stdout ++ String.join (passages.map (Passage.stdout console.flags.showTree)),
        console.stderr ++ String.join
          (passages.map (Passage.stderr console.flags.showTree console.environment))⟩ := by
  induction passages with
  | nil =>
    intro console
    simp [addAll, finish, String.join_nil]
  | cons first others ih =>
    intro console
    rw [addAll, List.foldl_cons, ← addAll, ih]
    simp only [add, List.map_cons, String.join_cons, String.append_assoc]

theorem write_eq (console : Console) (text : String) :
    console.write text = console.add (.own text "") := by
  unfold write add Passage.stdout Passage.stderr
  cases console.flags.showTree <;>
    simp [Passage.said, Passage.noted, Passage.trees, Passage.rereading]

theorem showTree_eq (console : Console) (text : List Char) :
    console.showTree text =
      { console with
        stdout := console.stdout ++ Passage.trees (.run text console.session)
        stderr := console.stderr ++
          Passage.rereading console.environment (.run text console.session) } := by
  unfold showTree
  dsimp only
  rw [Session.notes_parse]
  rfl

theorem submit_eq (console : Console) (host : Host) (text : List Char) :
    console.submit host text =
      ((console.session.beginStep.run host text).1,
        console.add (.run text (console.session.beginStep.run host text).2)) := by
  unfold submit add Passage.stdout Passage.stderr
  cases shown : console.flags.showTree with
  | false => simp [runText, Passage.said, Passage.noted]
  | true =>
    simp only [if_true, showTree_eq, runText, String.append_assoc]
    rfl

def answer (console : Console) (host : Host) : Request → Option Ending × Console
  | .nothing => (none, console)
  | .leave => (some (.exit 0), console)
  | .run text =>
    (ending? (console.session.beginStep.run host text).1,
      console.add (.run text (console.session.beginStep.run host text).2))

theorem feed_eq_answer (console : Console) (host : Host) (typed : List Char) :
    console.feed host typed = console.answer host (Request.ofLine typed) := by
  unfold feed Request.ofLine
  dsimp only
  by_cases blank : Text.trimLine typed = []
  · rw [if_pos blank, if_pos blank]
    rfl
  · by_cases leaves : Text.trimLine typed = "exit".toList
    · rw [if_neg blank, if_pos leaves, if_neg blank, if_pos leaves]
      rfl
    · rw [if_neg blank, if_neg leaves, if_neg blank, if_neg leaves, submit_eq, answer]
      cases (console.session.beginStep.run host (Text.trimLine typed)).1 <;> rfl

theorem feed_eq_addAll (console : Console) (host : Host) (typed : List Char) :
    ((console.write ask).feed host typed).2 =
      console.addAll
        ((Request.ofLine typed).passages ((console.write ask).feed host typed).2.session) := by
  rw [feed_eq_answer, write_eq]
  cases Request.ofLine typed <;> rfl

/-- The course of the console at the prompt, from the sessions that it really has. -/
def course (host : Host) (console : Console) : List (List Char) → Course
  | [] => ⟨[.own (ask ++ "\n") ""], .exit 0⟩
  | typed :: later =>
    let step := (console.write ask).feed host typed
    let passages := (Request.ofLine typed).passages step.2.session
    match step.1 with
    | some ending => ⟨passages, ending⟩
    | none => (step.2.course host later).behind passages

theorem prompt_eq (host : Host) (lines : List (List Char)) : ∀ console : Console,
    console.prompt host lines =
      (console.addAll (console.course host lines).passages).finish
        (console.course host lines).ending := by
  induction lines with
  | nil =>
    intro console
    rw [prompt, write_eq]
    rfl
  | cons typed later ih =>
    intro console
    -- The later lines find the console as the passages of this one leave it.
    have fed := console.feed_eq_addAll host typed
    rw [prompt, course]
    rcases answer : (console.write ask).feed host typed with ⟨_ | ending, after⟩
    · rw [answer] at fed
      dsimp only at fed ⊢
      rw [ih, Course.behind, addAll_append, ← fed]
    · rw [answer] at fed
      dsimp only at fed ⊢
      rw [← fed]

def scriptCourse (host : Host) (console : Console) (text : List Char) : Course :=
  let (answer, after) := console.submit host text
  ⟨[.run text after.session],
    match answer with
    | .finished result => .exit result.status.exitCode
    | .escaped fault => .escaped fault
    | .unfinished => .unfinished⟩

theorem script_eq (host : Host) (text : List Char) (console : Console) :
    console.script host text =
      (console.addAll (console.scriptCourse host text).passages).finish
        (console.scriptCourse host text).ending := by
  unfold script scriptCourse
  rw [submit_eq]
  rfl

end Console

end CommandLine

end Lox
