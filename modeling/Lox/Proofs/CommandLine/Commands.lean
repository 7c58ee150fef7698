import Lox.Proofs.CommandLine.Course

/-! The course of a whole command.

A command that goes on with a console has the course of that console, behind what is noted
about the limit on nested calls. Any other writes one text of its own and ends.
-/

set_option autoImplicit false

namespace Lox.CommandLine

variable {environment : Variables}

def text? : Except FileFault (List UInt8) → Option (List Char)
  | .error _ => none
  | .ok bytes => (Text.Utf8.decode bytes).toOption.map Text.unifyLineEnds

/-- A script that can be read is run; the complaint about any other is the same whatever
the flags are. -/
theorem runScript_cases (path : String) (contents : Except FileFault (List UInt8)) :
    (∃ text, text? contents = some text ∧ ∀ host flags environment,
      runScript host flags environment path contents =
        withConsole flags environment (·.script host text)) ∨
    text? contents = none ∧ ∃ complaint, ∀ host flags environment,
      runScript host flags environment path contents = complaint := by
  cases contents with
  | error fault => exact .inr ⟨rfl, fault.refusal path, fun _ _ _ => rfl⟩
  | ok bytes =>
    cases decoded : Text.Utf8.decode bytes with
    | error fault =>
      refine .inr ⟨?_, refuse 65 (path ++ " is not valid UTF-8: " ++ fault.message), ?_⟩
      · simp [text?, decoded, Except.toOption]
      · exact fun _ _ _ => by simp only [runScript, decoded]
    | ok text =>
      refine .inl ⟨Text.unifyLineEnds text, ?_, ?_⟩
      · simp [text?, decoded, Except.toOption]
      · exact fun _ _ _ => by simp only [runScript, decoded]

def courseFrom (flags : Flags) (environment : Variables) (next : Console → Course) : Course :=
  match Console.start? flags environment with
  | none => .ofTranscript ⟨.limitTooLarge, "", ""⟩
  | some console => (next console).behind [.own "" console.stderr]

theorem Console.start?_cases (flags : Flags) (environment : Variables) :
    Console.start? flags environment = none ∨
      Console.start? flags environment = some
        ⟨flags, environment, .start (Console.settings flags environment), "",
          allLines environment.limitNotes⟩ := by
  unfold Console.start? Session.start?
  split
  · exact .inr rfl
  · exact .inl rfl

theorem withConsole_eq {flags : Flags} {next : Console → Transcript} {course : Console → Course}
    (tells : ∀ console : Console,
      next console = (console.addAll (course console).passages).finish (course console).ending) :
    withConsole flags environment next =
      (courseFrom flags environment course).transcript flags.showTree environment := by
  unfold withConsole courseFrom
  rcases Console.start?_cases flags environment with refused | granted
  · rw [refused, Course.transcript_ofTranscript]
  · rw [granted]
    dsimp only
    -- What a new console has noted already is the first passage.
    rw [tells, Console.addAll_finish]
    cases flags.showTree <;>
      simp [Course.transcript, Course.behind, Passage.stdout, Passage.stderr, Passage.said,
        Passage.noted, Passage.trees, Passage.rereading, String.join_cons]

namespace Invocation

def flags? : Invocation → Option Flags
  | .usage => none
  | .script _ flags | .prompt flags => some flags

def course (host : Host) (environment : Variables) (disk : Disk) (input : List Char) :
    Invocation → Course
  | .usage => .ofTranscript CommandLine.usage
  | .script path flags =>
    match text? (disk.read path) with
    | none => .ofTranscript (runScript host flags environment path (disk.read path))
    | some text => courseFrom flags environment (·.scriptCourse host text)
  | .prompt flags =>
    courseFrom flags environment (·.course host (Text.lines (Text.unifyLineEnds input)))

end Invocation

theorem run_eq (host : Host) (environment : Variables) (disk : Disk) (arguments : List String)
    (input : List Char) {showTree : Bool}
    (shows : ∀ flags ∈ (Invocation.ofArguments arguments).flags?, flags.showTree = showTree) :
    run host environment disk arguments input =
      ((Invocation.ofArguments arguments).course host environment disk input).transcript showTree
        environment := by
  unfold run
  cases asked : Invocation.ofArguments arguments with
  | usage => exact (Course.transcript_ofTranscript _ _ _).symm
  | prompt flags =>
    rw [← shows flags (by rw [asked]; rfl)]
    exact withConsole_eq (Console.prompt_eq host _)
  | script path flags =>
    rw [← shows flags (by rw [asked]; rfl)]
    rcases runScript_cases path (disk.read path) with ⟨text, readable, runs⟩ | ⟨unreadable, _⟩
    · simp only [Invocation.course, readable]
      exact (runs host flags environment).trans (withConsole_eq (Console.script_eq host text))
    · simp only [Invocation.course, unreadable]
      rw [Course.transcript_ofTranscript]

end Lox.CommandLine
