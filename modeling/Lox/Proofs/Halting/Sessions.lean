import Lox.Proofs.Halting.Steps
import Lox.Proofs.Run.Fuel
import Lox.Proofs.Session.Frames

/-! Sessions without loops.

The machine of a session keeps free of loops as long as its texts are, so under a limit
each further run comes to its end. No point that a run comes to is left without fuel
unless the run itself is, so every step of it has then ended as well.
-/

set_option autoImplicit false

namespace Lox

namespace OutcomeIn

variable {σ α β : Type} {outcome : OutcomeIn σ α} {next : α → σ → OutcomeIn σ β}

def Ended : OutcomeIn σ α → Prop
  | .done .. | .failed .. => True
  | .cut _ => False

theorem Ended.of_bind (ended : (outcome.bind next).Ended) : outcome.Ended := by
  cases outcome with
  | exhausted => exact ended
  | _ => exact trivial

theorem Ended.rest {value : α} {state : σ} (ended : (outcome.bind next).Ended)
    (ran : outcome = .done value state) : (next value state).Ended := by
  subst ran
  exact ended

theorem Ended.of_mapState {change : σ → σ} (ended : (outcome.mapState change).Ended) :
    outcome.Ended := by
  cases outcome with
  | exhausted => exact ended
  | _ => exact trivial

theorem Halts.ended {outcome : Outcome α} {depth : Nat} {free : α → Prop}
    (halts : outcome.Halts depth free) : outcome.Ended := by
  cases outcome with
  | exhausted => exact halts
  | _ => exact trivial

end OutcomeIn

namespace Point

variable {rules : Rules} {point next : Point}

/-- The task of the point ends with its fuel. -/
def Ended (rules : Rules) (point : Point) : Prop :=
  (point.task.run rules point.fuel point.machine).Ended

theorem Ended.starts (ended : point.Ended rules) (starts : Starts rules point next) :
    next.Ended rules := by
  -- A task that ends has ended all that it starts: first operands at once, the others behind what
  -- ran before them.
  cases starts with
  | grouping | loop => exact ended
  | unary | binaryLeft | logicalLeft | assigned | callee | firstExpr | expression | print
  | initializer | condition | returned | firstStmt | loopCondition => exact ended.of_bind
  | binaryRight ran | arguments ran | otherExprs ran => exact (ended.rest ran).of_bind
  | logicalRight ran goesOn =>
    have rest := ended.rest ran
    rw [if_neg (by simp [goesOn])] at rest
    exact rest
  | call ran ranAll => exact (ended.rest ran).rest ranAll
  | body accepted =>
    simp only [Ended, Task.run, call_closure rules _ _ accepted] at ended
    exact ended.of_mapState.of_bind
  | block => exact ended.of_mapState
  | yes ran holds =>
    have rest := ended.rest ran
    rw [if_pos holds] at rest
    exact rest
  | no ran fails =>
    have rest := ended.rest ran
    rw [if_neg (by simp [fails])] at rest
    exact rest
  | otherStmts ran => exact ended.rest ran
  | loopBody ran holds =>
    have rest := ended.rest ran
    rw [if_pos holds] at rest
    exact rest.of_bind
  | loopAgain ran holds ranBody =>
    have rest := ended.rest ran
    rw [if_pos holds] at rest
    exact rest.rest ranBody

theorem Ended.reach (ended : point.Ended rules) (reaches : Reaches rules point next) :
    next.Ended rules := by
  induction reaches with
  | refl => exact ended
  | tail _ starts ih => exact ih.starts starts

end Point

namespace Machine

variable {machine : Machine} {rules : Rules} {limit : Int} {statements : List Stmt}

/-- A run under a limit leaves no closure with a loop where there was none. -/
theorem LoopFree.account (free : machine.LoopFree) (isLimit : rules.limit = some limit)
    (freeAll : Stmt.AllLoopFree statements) (fuel : Nat) :
    (machine.account rules fuel statements).2.LoopFree := by
  obtain ⟨enough, outcome, halts, same⟩ :=
    Stmt.allHalt (callsHalt isLimit machine.depth) statements machine freeAll free rfl
  -- The given fuel may be too little for the statements; then they do what they do with enough of
  -- it, as far as they come.
  have lasts := (lastsWith rules (Nat.le_max_left fuel enough) (.executeAll statements) machine).2
  rw [show Task.run rules (max fuel enough) machine (.executeAll statements) = outcome
    from same _ (Nat.le_max_right fuel enough)] at lasts
  rcases machine.account_machine rules fuel statements with ⟨_, kept⟩ | left
  · rw [kept]
    exact free
  cases ran : executeAll rules fuel statements machine with
  -- The fuel was too little, and the machine is that of the beginning.
  | @exhausted after =>
    have cut : interpret rules fuel statements machine = .cut after.reset := by
      rw [interpret, ran]
      rfl
    rw [account_of_cut cut]
    exact free
  | done completion after =>
    simp only [Task.run, ran] at lasts
    subst lasts
    rw [left, ran]
    exact halts.2.1
  | failed failure after =>
    simp only [Task.run, ran] at lasts
    subst lasts
    rw [left, ran]
    exact halts

theorem LoopFree.account_steady (free : machine.LoopFree) (isLimit : rules.limit = some limit)
    (freeAll : Stmt.AllLoopFree statements) :
    ∃ enough, ∀ fuel, enough ≤ fuel →
      (executeAll rules fuel statements machine).Ended ∧
      (machine.account rules fuel statements).1.ending ≠ .unfinished ∧
      machine.account rules fuel statements = machine.account rules enough statements := by
  obtain ⟨enough, outcome, halts, same⟩ :=
    Stmt.allHalt (callsHalt isLimit machine.depth) statements machine freeAll free rfl
  refine ⟨enough, fun fuel more => ?_⟩
  have ran : executeAll rules fuel statements machine = outcome := same fuel more
  refine ⟨ran ▸ halts.ended, ?_, ?_⟩
  · unfold Machine.account interpret
    rw [ran]
    cases outcome with
    | exhausted => exact halts.elim
    | done completion after => exact nofun
    | failed failure after => cases failure <;> exact nofun
  · unfold Machine.account interpret
    rw [ran, show executeAll rules enough statements machine = outcome from same enough le_rfl]

end Machine

namespace Session

variable {session : Session} {limit : Int} {host : Host} {text : List Char}

theorem loopFree_start (settings : Settings) : (start settings).machine.LoopFree := by
  have initial : Machine.initial.LoopFree := by
    intro id name value bound
    rw [Machine.value?_initial] at bound
    cases bound
  exact initial.define Native.clock.name (show (ValueIn.native .clock : Value).LoopFree from trivial)

theorem limit_rules (limited : session.settings.limit = some limit) (host : Host) :
    ∃ tighter, (session.settings.rules host).limit = some tighter := by
  unfold Settings.rules
  rw [limited]
  cases host.ceiling with
  | none => exact ⟨limit, rfl⟩
  | some ceiling => exact ⟨min limit ceiling, rfl⟩

theorem loopFree_after (runs : List (Host × List Char)) : ∀ {session : Session},
    session.settings.limit = some limit → (∀ run ∈ runs, Source.LoopFree run.2) →
    session.machine.LoopFree → (session.after runs).machine.LoopFree := by
  induction runs with
  | nil => exact fun _ _ free => free
  | cons run runs ih =>
    intro session limited freeTexts free
    obtain ⟨freeText, freeOthers⟩ := List.forall_mem_cons.mp freeTexts
    have accounted := session.run_accounted run.1 run.2
    have next : (session.run run.1 run.2).2.machine.LoopFree := by
      rw [accounted.machine]
      unfold account
      split
      next coded =>
        obtain ⟨tighter, isLimit⟩ := limit_rules limited run.1
        exact free.account isLimit (Source.loopFree_of_code freeText coded) run.1.fuel
      next => exact free
    exact ih (by rw [accounted.settings, limited]) freeOthers next

theorem account_steady (free : session.machine.LoopFree)
    (limited : session.settings.limit = some limit) (freeText : Source.LoopFree text) (host : Host) :
    ∃ enough, ∀ fuel, enough ≤ fuel →
      (session.account { host with fuel := fuel } text).1.ending ≠ .unfinished ∧
      session.account { host with fuel := fuel } text =
        session.account { host with fuel := enough } text ∧
      ∀ statements, Source.code session.settings.resolve text = .ok statements →
        (session.entry { host with fuel := fuel } statements).Ended (session.settings.rules host) := by
  obtain ⟨tighter, isLimit⟩ := limit_rules limited host
  unfold account
  cases coded : Source.code session.settings.resolve text with
  | error reports => exact ⟨0, fun fuel _ => ⟨nofun, rfl, nofun⟩⟩
  | ok statements =>
    obtain ⟨enough, steady⟩ := free.account_steady isLimit (Source.loopFree_of_code freeText coded)
    refine ⟨enough, fun fuel more => ?_⟩
    obtain ⟨ended, notCut, same⟩ := steady fuel more
    refine ⟨notCut, same, fun other again => ?_⟩
    cases again
    exact ended

/-- Under a limit on nested calls a session in which no text has a loop ends each run: with
enough fuel in one and the same way, and every step that the run comes to has ended, with
a value, a completion or an error. -/
theorem run_halts (settings : Settings) (limit : Int) (limited : settings.limit = some limit)
    (earlier : List (Host × List Char)) (freeTexts : ∀ run ∈ earlier, Source.LoopFree run.2)
    (host : Host) (text : List Char) (freeText : Source.LoopFree text) :
    let session := (start settings).after earlier
    ∃ enough ending machine, ending ≠ .unfinished ∧ ∀ fuel, enough ≤ fuel →
      let run := session.run { host with fuel := fuel } text
      run.1 = ending ∧ run.2.machine = machine ∧
      ∀ statements point, Source.code settings.resolve text = .ok statements →
        Point.Reaches (settings.rules host)
          (session.entry { host with fuel := fuel } statements) point →
        (point.task.run (settings.rules host) point.fuel point.machine).Ended := by
  intro session
  have kept : session.settings = settings := (@after_atRest earlier (start settings) ⟨rfl, rfl, rfl⟩).1
  have free : session.machine.LoopFree :=
    loopFree_after earlier limited freeTexts (loopFree_start settings)
  have limitedNow : session.settings.limit = some limit := by rw [kept, limited]
  obtain ⟨enough, steady⟩ := account_steady free limitedNow freeText host
  let last := session.account { host with fuel := enough } text
  -- With enough fuel the account is not that of an unfinished run, and more fuel leaves it as it
  -- is.
  have ends : last.1.runEnd session.settings.record ≠ .unfinished :=
    fun cut => (steady enough le_rfl).1 (Account.runEnd_eq_unfinished_iff.mp cut)
  refine ⟨enough, last.1.runEnd session.settings.record, last.2, ends, fun fuel more => ?_⟩
  obtain ⟨_, same, ended⟩ := steady fuel more
  have accounted := session.run_accounted { host with fuel := fuel } text
  rw [same] at accounted
  refine ⟨accounted.ending, accounted.machine, fun statements point coded reaches => ?_⟩
  rw [kept] at ended
  exact (ended statements coded).reach reaches

/-- The function `g` puts itself in the place of the one that it calls. -/
def placing : List Char :=
  "fun f(n) \x7b return n; \x7d fun g(n) \x7b f = g; return f(n); \x7d".toList

def calling : List Char := "print f(1); g(1);".toList

/-- The second text sets up a recursion without an end, and its run does end. -/
theorem run_halts_placing :
    let host : Host := ⟨0, none, fun _ => 0⟩
    let session := (start ⟨true, some 3, true, false⟩).after [(⟨30, none, fun _ => 0⟩, placing)]
    (session.run { host with fuel := 20 } calling).1 = .unfinished ∧
    ∃ enough ending, ending ≠ .unfinished ∧ ∀ fuel, enough ≤ fuel →
      (session.run { host with fuel := fuel } calling).1 = ending := by
  intro host session
  obtain ⟨enough, ending, _, ends, same⟩ := run_halts ⟨true, some 3, true, false⟩ 3 rfl
    [(⟨30, none, fun _ => 0⟩, placing)] (by decide +kernel) host calling (by decide +kernel)
  exact ⟨by decide +kernel, enough, ending, ends, fun fuel more => (same fuel more).1⟩

end Session

end Lox
