import Lox.Proofs.Lines.Scoping
import Lox.Proofs.Renaming.Chosen
import Lox.Proofs.Renaming.Scoping
import Lox.Proofs.Renaming.Simulation
import Lox.Proofs.Session.Accounts
import Lox.Proofs.Session.Safety

/-! Runs of a program and of the same program with other names.

Local names do not matter: both programs are accepted with the same distances, print the
same lines, report the same errors, end in the same way and leave the same globals. Only the
fault of an assignment in its own initializer tells the name that is missing.
-/

set_option autoImplicit false

namespace Lox

variable {names : Renaming} {rules : Rules} {fuel : Nat} {statements others : List Stmt}
  {machine other : Machine} {marked : List Bool} {point mirror : Point}

theorem Machine.Renamed.clear (renamed : machine.Renamed names marked other) :
    { machine with printed := #[] }.Renamed names marked { other with printed := #[] } :=
  ⟨renamed.store, rfl, renamed.closures, renamed.readings⟩

theorem interpret_alongside (lexical : rules.lookup = .lexical)
    (both : machine.RenamedAt names marked [] other)
    (renamed : Stmt.AllRenamed names [] statements others)
    (named : Stmt.AllNamed names.Known statements) :
    Alongside names rules ⟨.executeAll statements, fuel, machine⟩ ⟨.executeAll others, fuel, other⟩
      (fun _ after _ after' => ∃ more, after.Renamed names more after')
      (interpret rules fuel statements machine) (interpret rules fuel others other) := by
  refine Alongside.leave (OutcomeIn.Pairs.bind
    ((renamesWith names lexical fuel).executeAll both renamed named) ?_)
  rintro completion after second after' ran ran' ⟨more, step⟩
  have left := step.both.renamed
  exact .done ⟨more, left.store, left.printed, left.closures, left.readings⟩

/-- The same end, or two faults that go together. -/
inductive Ending.Alongside (names : Renaming) (rules : Rules) (point mirror : Point) :
    Ending → Ending → Prop where
  | finished (status : Status) : Alongside names rules point mirror (.finished status) (.finished status)
  | escaped {fault second : Fault} :
      point.Blames names rules mirror (.fault fault) (.fault second) →
      Alongside names rules point mirror (.escaped fault) (.escaped second)
  | unfinished : Alongside names rules point mirror .unfinished .unfinished

structure Account.Alongside (names : Renaming) (rules : Rules) (point mirror : Point)
    (account other : Account) : Prop where
  lines : other.lines = account.lines
  reports : other.reports = account.reports
  ending : account.ending.Alongside names rules point mirror other.ending

namespace Account.Alongside

variable {account second : Account}

theorem emissions_eq (alongside : account.Alongside names rules point mirror second) :
    second.emissions = account.emissions := by
  unfold emissions
  rw [alongside.lines, alongside.reports]

theorem runEnd_eq (alongside : account.Alongside names rules point mirror second) (record : Bool)
    (kept : ∀ fault, account.runEnd record ≠ .escaped fault) :
    second.runEnd record = account.runEnd record := by
  have ends := alongside.ending
  unfold runEnd at kept ⊢
  generalize account.ending = ending at ends kept ⊢
  generalize second.ending = other at ends ⊢
  cases ends with
  | finished status => dsimp only; rw [alongside.lines, alongside.reports, alongside.emissions_eq]
  | escaped blames => exact absurd rfl (kept _)
  | unfinished => rfl

theorem escaped (alongside : account.Alongside names rules point mirror second) {record : Bool}
    {fault : Fault} (escapes : account.runEnd record = .escaped fault) :
    ∃ other, second.runEnd record = .escaped other ∧
      point.Blames names rules mirror (.fault fault) (.fault other) := by
  have ends := alongside.ending
  unfold runEnd at escapes ⊢
  generalize account.ending = ending at ends escapes
  generalize second.ending = other at ends ⊢
  cases ends with
  | finished status => cases escapes
  | escaped blames =>
    cases escapes
    exact ⟨_, rfl, blames⟩
  | unfinished => cases escapes

end Account.Alongside

theorem Machine.account_alongside (lexical : rules.lookup = .lexical)
    (both : machine.RenamedAt names marked [] other)
    (renamed : Stmt.AllRenamed names [] statements others)
    (named : Stmt.AllNamed names.Known statements) :
    (machine.account rules fuel statements).1.Alongside names rules
        ⟨.executeAll statements, fuel, machine⟩ ⟨.executeAll others, fuel, other⟩
        (other.account rules fuel others).1 ∧
      ∃ more, (machine.account rules fuel statements).2.Renamed names more
        (other.account rules fuel others).2 := by
  have alongside := @interpret_alongside names rules fuel statements others machine other marked
    lexical both renamed named
  unfold Machine.account
  generalize interpret rules fuel statements machine = outcome at alongside ⊢
  generalize interpret rules fuel others other = second at alongside ⊢
  cases alongside with
  | done left =>
    -- Both machines print the same; the reports are none.
    obtain ⟨more, left⟩ := left
    exact ⟨⟨congrArg Array.toList left.printed, rfl, .finished .success⟩, more, left.clear⟩
  | @failed failure after second after' fails =>
    obtain ⟨blames, more, left⟩ := fails
    -- A runtime error is the same on both sides, since it names no variable that is changed; a
    -- fault may name one.
    have goes := blames.renamed
    cases failure with
    | runtime error =>
      cases goes with
      | same =>
        exact ⟨⟨congrArg Array.toList left.printed, rfl, .finished .runtimeError⟩, more, left.clear⟩
    | fault fault =>
      cases second with
      | runtime error => cases goes
      | fault second =>
        exact ⟨⟨congrArg Array.toList left.printed, rfl, .escaped blames⟩, more, left.clear⟩
  | exhausted printed => exact ⟨⟨congrArg Array.toList printed, rfl, .unfinished⟩, marked, both.renamed⟩

theorem Store.Renamed.root_add (names : Renaming) :
    (Store.empty.add none).Renamed names [false] (Store.empty.add none) := by
  constructor
  · rfl
  · rfl
  · exact .root (Store.frame?_add_next Store.empty none) rfl
  · rfl
  · exact fun _ => rfl
  · intro id mark placed
    have bound : id < 1 := (List.getElem?_eq_some_iff.mp placed).1
    obtain rfl : id = 0 := by omega
    exact .nil

theorem Machine.renamedAt_start (names : Renaming) (settings : Settings) :
    (Session.start settings).machine.RenamedAt names [false] [] (Session.start settings).machine := by
  have clock : ValueIn.Renamed names [false] Machine.initial.store (.native .clock) (.native .clock) :=
    .native .clock
  have store : (Session.start settings).machine.store.Renamed names [false]
      (Session.start settings).machine.store :=
    (Store.Renamed.root_add names).put rfl ⟨Bool.noConfusion, rfl⟩ clock
  exact ⟨⟨store, rfl, rfl, rfl⟩, rfl, rfl, store.root⟩

theorem Machine.Renamed.face_bindings (renamed : machine.Renamed names marked other) :
    (other.store.bindings globals).map (Prod.map id ValueIn.face) =
      (machine.store.bindings globals).map (Prod.map id ValueIn.face) :=
  (renamed.store.bindings renamed.store.unmarked).map_eq (fun told => told.2.symm)
    fun alike => alike.face_eq

theorem Machine.eq_of_locate_missing {lookup : Lookup} {name : Token} {distance : Option Nat}
    {missing : String}
    (error : machine.locate lookup name distance = .error (.fault (.store (.missing missing)))) :
    missing = name.lexeme := by
  unfold Machine.locate at error
  split at error
  · split at error
    next => cases error
    next same =>
      cases error
      unfold Store.locate at same
      split at same
      next => cases same
      next => split at same <;> cases same; rfl
  · split at error <;> cases error

/-- Two runs come to the same assignment, and each misses the name that stands there. -/
def Point.MissesName (names : Renaming) (rules : Rules) (point mirror : Point) (fault second : Fault) :
    Prop :=
  ∃ (name : Token) (value : Expr) (distance : Option Nat) (marks : List Bool) (culprit other : Point),
    Reaches rules point culprit ∧ Reaches rules mirror other ∧
    culprit.task = .evaluate (.assign name value distance) ∧
    other.task = .evaluate ((Expr.assign name value distance).rename names marks) ∧
    Raises rules culprit (.fault fault) ∧ Raises rules other (.fault second) ∧
    fault = .store (.missing name.lexeme) ∧
    second = .store (.missing (name.rename names (markAt marks distance)).lexeme)

namespace Session

variable {session : Session} {host : Host} {text : List Char} {resolved : List Stmt}

/-- A fault of a run was raised at an assignment, and the other run raises its own at the same. -/
theorem Ready.missesName (ready : session.Ready Site.Located)
    (accepted : Source.resolved? text = some resolved) {fault second : Fault}
    (blames : (session.entry host resolved).Blames names (session.settings.rules host) mirror
      (.fault fault) (.fault second)) :
    (session.entry host resolved).MissesName names (session.settings.rules host) mirror fault second := by
  obtain ⟨culprit, ⟨task, fuel, machine⟩, reaches, reachesOther, raises, raisesOther, same⟩ :=
    blames.raised
  have stands := ready.visits_stand (Source.allows_located text) accepted reaches
  have known : ∀ site : Site, site.Located → site.Exact ∨
      site.pending = some site.name.lexeme ∧ site.assigned = true ∧ site.distance = some 0 :=
    fun site located => located.symm.imp_left And.right
  rcases stands.raises known raises with ⟨_, runtime⟩ | ⟨site, _, _, _, unbound, fails⟩
  · cases runtime
  · cases fails
    cases unbound with
    | @intro _ _ _ token value _ lexeme _ _ _ =>
      rw [← lexeme] at raises blames ⊢
      cases same with
      | evaluate marks =>
        refine ⟨token, value, some 0, marks, _, _, reaches, reachesOther, rfl, rfl, raises, raisesOther,
          rfl, ?_⟩
        cases raisesOther with
        | assign _ missed =>
          -- Whatever name goes together with the first, the one that stands there is missing.
          have goes := blames.renamed
          cases goes with
          | same => rw [← Machine.eq_of_locate_missing missed]
          | missing => rw [← Machine.eq_of_locate_missing missed]

/-- Local names do not matter. If in some scopes of an accepted program all variables and
parameters of one name get another that the program does not have, and so do the uses that
lead there, it is accepted with the same distances and runs in the same way. Only an
escaping fault names what is missing where it was raised. -/
theorem run_renamed {settings : Settings} (resolving : settings.resolve = true) (host : Host)
    {text : List Char} {resolved : List Stmt} (accepted : Source.resolved? text = some resolved)
    (chosen : Address → Bool) (old new : String)
    (kept : Stmt.AllKeepIn (Renaming.replace old new) chosen false [] 0 resolved)
    (unused : Stmt.AllNamed (· ≠ new) resolved) :
    let names := Renaming.replace old new
    let session := start settings
    let rules := session.settings.rules host
    let others := Stmt.renameAllIn names chosen [] [] 0 resolved
    let first := session.run host text
    let second := session.runStatements host (Stmt.eraseAll others)
    (∃ uses otherUses,
      (resolveProgram (Source.ofText text).program.statements).Yields resolved uses ∧
        (resolveProgram (Stmt.eraseAll others)).Yields others otherUses ∧
        otherUses.map LocalUse.unnamed = uses.map LocalUse.unnamed) ∧
      second.2.stream = first.2.stream ∧
      second.2.journal.reports = first.2.journal.reports ∧
      (∃ marked, first.2.machine.Renamed names marked second.2.machine) ∧
      second.2.globals.map (Prod.map id ValueIn.face) =
        first.2.globals.map (Prod.map id ValueIn.face) ∧
      ((∀ fault, first.1 ≠ .escaped fault) → second.1 = first.1) ∧
      ∀ fault, first.1 = .escaped fault → ∃ other, second.1 = .escaped other ∧
        (session.entry host resolved).MissesName names rules (session.entry host others) fault other := by
  intro names session rules others first second
  have lexical : rules.lookup = .lexical := by
    change (settings.rules host).lookup = .lexical
    simp [Settings.rules, resolving]
  have renamed : Stmt.AllRenamed names [] resolved others := Stmt.allRenamed_renameAllIn resolved kept
  -- An accepted text has every use located and every return inside a function, which is all that
  -- the resolver asks for; so the renamed one is accepted too.
  have located : Stmt.EveryUseIn Site.Located [] resolved := Source.allows_located text _ accepted
  have proper := Source.proper_of_resolved? accepted
  have inside := Source.returnsInside_of_resolved? accepted
  have yields := resolveProgram_yields proper located inside
  obtain ⟨accepts, sameUses⟩ := resolveProgram_renamed renamed unused proper located inside
  rw [← resolveProgram_eraseAll] at yields accepts
  have clean : (resolveProgram (Stmt.eraseAll others)).clean? = some others :=
    Resolution.clean?_eq_some_iff.mpr ⟨_, accepts⟩
  -- Both sessions do what the accounts of their statements say, and the accounts go along.
  have ofFirst : session.Accounted first _ := session.run_accounted host text
  rw [account_of_resolved? resolving accepted] at ofFirst
  have ofSecond : session.Accounted second _ :=
    runStatements_accounted ⟨rfl, rfl, rfl⟩ host resolving clean
  obtain ⟨alongside, marked, left⟩ := Machine.account_alongside lexical
    (Machine.renamedAt_start names settings) renamed unused
  rw [← ofFirst.machine, ← ofSecond.machine] at left
  refine ⟨⟨_, _, Source.eraseAll_of_resolved? accepted ▸ yields, accepts, sameUses⟩, ?_, ?_,
    ⟨marked, left⟩, left.face_bindings, ?_, ?_⟩
  · rw [ofFirst.stream, ofSecond.stream]
    exact congrArg _ alongside.emissions_eq
  · rw [ofFirst.reports, ofSecond.reports]
    exact alongside.reports
  · rw [ofFirst.ending, ofSecond.ending]
    exact alongside.runEnd_eq _
  · intro fault escapes
    obtain ⟨other, also, blames⟩ := alongside.escaped (ofFirst.ending.symm.trans escapes)
    have ready : session.Ready Site.Located := ready_start resolving
    exact ⟨other, ofSecond.ending.trans also, ready.missesName accepted blames⟩

/-- A function in a block that assigns and prints a variable of the block. -/
def assignedInside : List Char :=
  ['\x7b', 'v', 'a', 'r', ' ', 'a', ';', 'f', 'u', 'n', ' ', 'f', '(', 'b', ')', '\x7b', 'a', '=', 'b', ';',
    'p', 'r', 'i', 'n', 't', ' ', 'a', ';', '\x7d', 'f', '(', 't', 'r', 'u', 'e', ')', ';', '\x7d']

/-- The variable of the block gets another name, and the function prints it still. -/
theorem run_renamed_assignedInside :
    ∃ resolved, Source.resolved? assignedInside = some resolved ∧
      Stmt.AllKeepIn (Renaming.replace "a" "c") (· == [0]) false [] 0 resolved ∧
      Stmt.AllNamed (· ≠ "c") resolved ∧
      ((start ⟨true, none, true, false⟩).runStatements ⟨30, none, fun _ => 0⟩
        (Stmt.eraseAll
          (Stmt.renameAllIn (Renaming.replace "a" "c") (· == [0]) [] [] 0 resolved))).1 =
        .finished ⟨.success, ["true"], [], [⟨.output, "true"⟩]⟩ := by
  have conditions : (Source.resolved? assignedInside).isSome = true ∧
      ∀ resolved ∈ Source.resolved? assignedInside,
        Stmt.AllKeepIn (Renaming.replace "a" "c") (· == [0]) false [] 0 resolved ∧
          Stmt.AllNamed (· ≠ "c") resolved := by
    decide +kernel
  have ended : ((start ⟨true, none, true, false⟩).run ⟨30, none, fun _ => 0⟩ assignedInside).1 =
      .finished ⟨.success, ["true"], [], [⟨.output, "true"⟩]⟩ := by
    decide +kernel
  obtain ⟨some, names⟩ := conditions
  obtain ⟨resolved, accepted⟩ := Option.isSome_iff_exists.mp some
  obtain ⟨kept, unused⟩ := names resolved accepted
  obtain ⟨_, _, _, _, _, same, _⟩ := @run_renamed ⟨true, none, true, false⟩ rfl ⟨30, none, fun _ => 0⟩
    assignedInside resolved accepted (· == [0]) "a" "c" kept unused
  refine ⟨resolved, accepted, kept, unused, (same ?_).trans ended⟩
  intro fault escapes
  cases ended.symm.trans escapes

/-- An assignment in its own initializer misses the new name. -/
example :
    ((Source.resolved? ['\x7b', 'v', 'a', 'r', ' ', 'a', '=', 'a', '=', 'n', 'i', 'l', ';', '\x7d']).map
      fun resolved => ((start ⟨true, none, true, false⟩).runStatements ⟨30, none, fun _ => 0⟩
        (Stmt.eraseAll
          (Stmt.renameAllIn (Renaming.replace "a" "c") (· == [0]) [] [] 0 resolved))).1) =
      some (.escaped (.store (.missing "c"))) := by
  decide +kernel

end Session

end Lox
