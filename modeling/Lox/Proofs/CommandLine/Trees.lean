import Lox.Proofs.CommandLine.Commands

/-! Commands with trees and without.

Whether trees are shown has no part in the course of a command: its console goes through
the same sessions and ends in the same way. It decides only whether the trees of a text
stand before what its run says.
-/

set_option autoImplicit false

namespace Lox.CommandLine

variable {host : Host} {environment : Variables}

namespace Console

variable {console other : Console}

theorem feed_congr (same : other.session = console.session) (host : Host) (typed : List Char) :
    (other.feed host typed).1 = (console.feed host typed).1 ∧
      (other.feed host typed).2.session = (console.feed host typed).2.session := by
  rw [feed_eq_answer, feed_eq_answer]
  cases Request.ofLine typed with
  | nothing | leave => exact ⟨rfl, same⟩
  | run text =>
    rw [answer, answer, same]
    exact ⟨rfl, rfl⟩

theorem course_congr (lines : List (List Char)) : ∀ {console other : Console},
    other.session = console.session → other.course host lines = console.course host lines := by
  induction lines with
  | nil => exact fun _ => rfl
  | cons typed later ih =>
    intro console other same
    have written : (other.write ask).session = (console.write ask).session := same
    obtain ⟨endings, sessions⟩ := feed_congr written host typed
    rw [course, course, endings, sessions]
    cases ((console.write ask).feed host typed).1 with
    | some ending => rfl
    | none => exact congrArg (Course.behind · _) (ih sessions)

theorem scriptCourse_congr (same : other.session = console.session) (text : List Char) :
    other.scriptCourse host text = console.scriptCourse host text := by
  unfold scriptCourse
  rw [submit_eq, submit_eq, same]
  rfl

end Console

theorem courseFrom_congr {flags other : Flags} {next : Console → Course}
    (same : other.resolve = flags.resolve)
    (congr : ∀ console twin : Console, twin.session = console.session → next twin = next console) :
    courseFrom other environment next = courseFrom flags environment next := by
  have settings : Console.settings other environment = Console.settings flags environment := by
    rw [Console.settings, Console.settings, same]
  unfold courseFrom Console.start?
  rw [settings]
  cases Session.start? (Console.settings flags environment) with
  | none => rfl
  | some session =>
    exact congrArg (Course.behind · _) (congr _ _ rfl)

/-- Each run begins with the session behind the run before it, and runs its text once. -/
def InTurn (host : Host) : Session → List Passage → Prop
  | _, [] => True
  | session, .own .. :: later => InTurn host session later
  | session, .run text after :: later =>
    after = (session.take (.run host text)).2 ∧ InTurn host after later

theorem errors_of_take (session : Session) (host : Host) (text : List Char) :
    Channel.errors.texts (session.take (.run host text)).2.stream =
      (session.take (.run host text)).2.journal.messages := by
  have accounted := session.beginStep.run_accounted host text
  rw [Session.take, accounted.stream, Journal.messages, accounted.reports]
  exact Account.texts_errors _

theorem InTurn.errors {passages : List Passage} : ∀ {session : Session},
    InTurn host session passages → ∀ text after, .run text after ∈ passages →
      Channel.errors.texts after.stream = after.journal.messages := by
  induction passages with
  | nil => exact fun _ _ _ => nofun
  | cons first others ih =>
    intro session turn text after member
    cases first with
    | own stdout stderr =>
      rcases List.mem_cons.mp member with same | member
      · cases same
      · exact ih turn text after member
    | run ran behind =>
      obtain ⟨left, later⟩ := turn
      rcases List.mem_cons.mp member with same | member
      · cases same
        rw [left]
        exact errors_of_take session host text
      · exact ih later text after member

namespace Console

theorem inTurn_feed (console : Console) (typed : List Char) {others : List Passage}
    (turn : InTurn host (console.feed host typed).2.session others) :
    InTurn host console.session
      ((Request.ofLine typed).passages (console.feed host typed).2.session ++ others) := by
  rw [feed_eq_answer] at turn ⊢
  cases request : Request.ofLine typed with
  | nothing | leave =>
    rw [request] at turn
    exact turn
  | run text =>
    rw [request] at turn
    exact ⟨rfl, turn⟩

theorem inTurn_course (lines : List (List Char)) : ∀ console : Console,
    InTurn host console.session (console.course host lines).passages := by
  induction lines with
  | nil => exact fun _ => trivial
  | cons typed later ih =>
    intro console
    -- Asking for the line leaves the session alone.
    have fed := @inTurn_feed host (console.write ask) typed
    rw [course]
    cases ((console.write ask).feed host typed).1 with
    | some ending =>
      have whole := @fed [] trivial
      rw [List.append_nil] at whole
      exact whole
    | none => exact fed (ih _)

theorem inTurn_scriptCourse (console : Console) (text : List Char) :
    InTurn host console.session (console.scriptCourse host text).passages := by
  unfold scriptCourse
  rw [submit_eq]
  exact ⟨rfl, trivial⟩

end Console

theorem inTurn_courseFrom {flags : Flags} {next : Console → Course}
    (turn : ∀ console : Console, InTurn host console.session (next console).passages) :
    InTurn host (.start (Console.settings flags environment))
      (courseFrom flags environment next).passages := by
  unfold courseFrom
  rcases Console.start?_cases flags environment with refused | granted
  · rw [refused]
    trivial
  · rw [granted]
    exact turn ⟨flags, environment, .start (Console.settings flags environment), "",
      allLines environment.limitNotes⟩

namespace Invocation

variable {invocation : Invocation}

/-- The same but for whether trees are shown. -/
def showing (showTree : Bool) : Invocation → Invocation
  | .usage => .usage
  | .script path flags => .script path { flags with showTree := showTree }
  | .prompt flags => .prompt { flags with showTree := showTree }

theorem showTree_showing (invocation : Invocation) (showTree : Bool) :
    ∀ flags ∈ (invocation.showing showTree).flags?, flags.showTree = showTree := by
  cases invocation <;> simp [showing, flags?]

theorem course_showing (invocation : Invocation) (showTree : Bool) (disk : Disk)
    (input : List Char) :
    (invocation.showing showTree).course host environment disk input =
      invocation.course host environment disk input := by
  cases invocation with
  | usage => rfl
  | prompt flags => exact courseFrom_congr rfl fun _ _ => Console.course_congr _
  | script path flags =>
    rcases runScript_cases path (disk.read path) with ⟨text, readable, _⟩ | ⟨unreadable, _, same⟩
    · simp only [showing, course, readable]
      exact courseFrom_congr rfl fun _ _ same => Console.scriptCourse_congr same text
    · simp only [showing, course, unreadable]
      rw [same, same]

theorem inTurn_course (disk : Disk) (input : List Char) {flags : Flags}
    (runs : flags ∈ invocation.flags?) :
    InTurn host (.start (Console.settings flags environment))
      (invocation.course host environment disk input).passages := by
  cases invocation with
  | usage => cases runs
  | prompt found =>
    cases runs
    exact inTurn_courseFrom (Console.inTurn_course _)
  | script path found =>
    cases runs
    cases readable : text? (disk.read path) with
    | none =>
      simp only [course, readable]
      trivial
    | some text =>
      simp only [course, readable]
      exact inTurn_courseFrom fun console => console.inTurn_scriptCourse text

theorem errors_course (disk : Disk) (input : List Char) (text : List Char) (after : Session)
    (member : .run text after ∈ (invocation.course host environment disk input).passages) :
    Channel.errors.texts after.stream = after.journal.messages := by
  cases invocation with
  | usage => simp [course, Course.ofTranscript] at member
  | script path flags => exact (inTurn_course disk input rfl).errors text after member
  | prompt flags => exact (inTurn_course disk input rfl).errors text after member

theorem isFlag_printAst : isFlag "--print-ast" = true := by simp [isFlag]

theorem ofArguments_filter (arguments : List String) :
    ofArguments (arguments.filter (· ≠ "--print-ast")) = (ofArguments arguments).showing false := by
  have flags : (arguments.filter (· ≠ "--print-ast")).filter isFlag =
      (arguments.filter isFlag).filter (· ≠ "--print-ast") := by
    rw [List.filter_filter, List.filter_filter]
    exact List.filter_congr fun argument _ => Bool.and_comm _ _
  have paths : (arguments.filter (· ≠ "--print-ast")).filter (!isFlag ·) =
      arguments.filter (!isFlag ·) := by
    rw [List.filter_filter]
    refine List.filter_congr fun argument _ => ?_
    by_cases same : argument = "--print-ast" <;> simp [same, isFlag_printAst]
  unfold ofArguments
  rw [flags, paths]
  generalize arguments.filter isFlag = flags
  have known : (flags.filter (· ≠ "--print-ast")).all (knownFlags.contains ·) =
      flags.all (knownFlags.contains ·) := by
    rw [List.all_filter]
    -- The flag itself is known, so nothing is lost with it.
    refine congrArg flags.all (funext fun flag => ?_)
    by_cases same : flag = "--print-ast" <;> simp [same, knownFlags]
  have resolve : (flags.filter (· ≠ "--print-ast")).contains "--no-resolve" =
      flags.contains "--no-resolve" := by
    simp [List.contains_eq_mem, List.mem_filter]
  have hidden : (flags.filter (· ≠ "--print-ast")).contains "--print-ast" = false := by
    simp [List.contains_eq_mem, List.mem_filter]
  dsimp only
  rw [known, resolve, hidden]
  split
  · rcases arguments.filter (!isFlag ·) with _ | ⟨path, _ | ⟨other, more⟩⟩ <;> rfl
  · rfl

theorem showTree_of_mem {arguments : List String} (asked : "--print-ast" ∈ arguments) :
    ∀ flags ∈ (ofArguments arguments).flags?, flags.showTree = true := by
  have shown : (arguments.filter isFlag).contains "--print-ast" = true := by
    simp [List.contains_eq_mem, List.mem_filter, asked, isFlag_printAst]
  unfold ofArguments
  dsimp only
  rw [shown]
  split
  · rcases arguments.filter (!isFlag ·) with _ | ⟨path, _ | ⟨other, more⟩⟩ <;> simp [flags?]
  · exact nofun

end Invocation

/-- Showing trees only adds text. A command goes the same course with and without the flag:
the console writes the same texts of its own and has the same session behind each run, so
later runs find the same globals and distances. Each run takes up the session behind the
one before it and hands on each of its reports once, and the command ends in the same way.
All that is added stands directly before what a run says: on the standard output the
statements of its text that parsed, and on the other stream what is noted when that text
is read for them. -/
theorem run_showing_trees (host : Host) (environment : Variables) (disk : Disk)
    (arguments : List String) (input : List Char) (asked : "--print-ast" ∈ arguments) :
    let others := arguments.filter (· ≠ "--print-ast")
    let course := (Invocation.ofArguments others).course host environment disk input
    let plain := run host environment disk others input
    let shown := run host environment disk arguments input
    (Invocation.ofArguments arguments).course host environment disk input = course ∧
      (∀ flags ∈ (Invocation.ofArguments others).flags?,
        InTurn host (.start (Console.settings flags environment)) course.passages) ∧
      (∀ text after, .run text after ∈ course.passages →
        Channel.errors.texts after.stream = after.journal.messages) ∧
      shown.ending = plain.ending ∧
      plain.stdout = String.join (course.passages.map Passage.said) ∧
      shown.stdout =
        String.join (course.passages.map fun passage => passage.trees ++ passage.said) ∧
      plain.stderr = String.join (course.passages.map Passage.noted) ∧
      shown.stderr = String.join
        (course.passages.map fun passage => passage.rereading environment ++ passage.noted) := by
  intro others course plain shown
  have hidden : Invocation.ofArguments others = (Invocation.ofArguments arguments).showing false :=
    Invocation.ofArguments_filter arguments
  have same : (Invocation.ofArguments arguments).course host environment disk input = course := by
    change _ = (Invocation.ofArguments others).course host environment disk input
    rw [hidden, Invocation.course_showing]
  have plainly : plain = course.transcript false environment := by
    refine run_eq host environment disk others input ?_
    rw [hidden]
    exact Invocation.showTree_showing _ _
  have openly : shown = course.transcript true environment := by
    rw [← same]
    exact run_eq host environment disk arguments input (Invocation.showTree_of_mem asked)
  have bare : Passage.stdout false = Passage.said ∧
      Passage.stderr false environment = Passage.noted := by
    constructor <;> funext passage <;> exact String.empty_append
  refine ⟨same, fun flags runs => Invocation.inTurn_course disk input runs,
    Invocation.errors_course disk input, ?_⟩
  rw [plainly, openly]
  refine ⟨rfl, ?_, rfl, ?_, rfl⟩
  · rw [Course.transcript, bare.1]
  · rw [Course.transcript, bare.2]

/-- At the prompt: a blank line, a statement before one that does not parse, an operator
that refuses its operand, and an assignment that ends the session inside the initializer
of its own variable. -/
def ownAssignment : List Char :=
  "\nnil; print ;\n-nil;\n\x7bvar a = a = true;\x7d\nprint true;\n".toList

/-- Three of the eight passages are runs; each says behind its trees what it says without. -/
theorem run_showing_trees_ownAssignment :
    let host : Host := ⟨20, none, fun _ => 0⟩
    let plain := run host .none ⟨[], []⟩ [] ownAssignment
    let shown := run host .none ⟨[], []⟩ ["--print-ast"] ownAssignment
    let course := (Invocation.ofArguments []).course host .none ⟨[], []⟩ ownAssignment
    plain = ⟨.escaped (.store (.missing "a")),
        "> > [line 1] Error at ';': Expect expression.\n" ++
          "> Operand must be a number.\n[line 1]\n> ", ""⟩ ∧
      shown = ⟨plain.ending,
        "> > (; nil)\n[line 1] Error at ';': Expect expression.\n" ++
          "> (; (- nil))\nOperand must be a number.\n[line 1]\n" ++
          "> (block (var a = (= a true)))\n", ""⟩ ∧
      course.passages.length = 8 ∧ "--print-ast" ∈ ["--print-ast"] ∧
      plain.stdout = String.join (course.passages.map Passage.said) ∧
      shown.stdout =
        String.join (course.passages.map fun passage => passage.trees ++ passage.said) := by
  intro host plain shown course
  have asked : "--print-ast" ∈ ["--print-ast"] := by decide
  obtain ⟨_, _, _, _, stdout, shownStdout, _, _⟩ :=
    run_showing_trees host .none ⟨[], []⟩ ["--print-ast"] ownAssignment asked
  exact ⟨by decide +kernel, by decide +kernel, by decide +kernel, asked, stdout, shownStdout⟩

end Lox.CommandLine
