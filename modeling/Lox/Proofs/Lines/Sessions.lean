import Lox.Proofs.Lines.Joined
import Lox.Proofs.Lines.Origins
import Lox.Proofs.Lines.Scoping

/-! Running two texts as one.

Where each of two texts is accepted and the first ends well, both as one text do what they do one
after the other. Only the reports that stand in the second text are on later lines then.
-/

set_option autoImplicit false

namespace Lox

def ValueIn.unlabelled {ε : Type} (value : ValueIn ε) : ValueIn ε := value.relabel fun _ => 0

theorem Account.relabel_id (account : Account) : account.relabel id = account := by
  have same : Report.relabel id = id := by
    funext report
    cases report <;> rfl
  simp only [Account.relabel, same, List.map_id]

namespace Machine

variable {machine : Machine} {rules : Rules} {fuel : Nat}

theorem exists_account_lined (tagged : Machine) (rules : Rules) (fuel : Nat)
    (statements : List Stmt) : ∃ (account : Account) (own : Bool) (after : Machine), ∀ lines,
      (tagged.retell (lineOf lines) #[]).account rules fuel
          (Stmt.relabelAll (lineOf lines) statements) =
        (account.relabel (if own then lines else id), after.retell (lineOf lines) #[]) := by
  obtain ⟨account, own, origin⟩ := tagged.exists_account_origin rules fuel statements
  refine ⟨account, own, (tagged.account rules fuel statements).2, fun lines => ?_⟩
  rw [account_retell, origin]

theorem exists_account_other (tagged : Machine) (rules : Rules) (fuel : Nat)
    (statements : List Stmt) : ∃ (account : Account) (own : Bool) (after : Machine), ∀ lines,
      (tagged.retell (lineOf lines) #[]).account rules fuel statements =
        (account.relabel (if own then lines else id), after.retell (lineOf lines) #[]) := by
  obtain ⟨account, own, after, same⟩ :=
    tagged.exists_account_lined rules fuel (Stmt.relabelAll otherLabel statements)
  refine ⟨account, own, after, fun lines => ?_⟩
  have told := same lines
  rwa [Stmt.relabelAll_relabelAll, lineOf_comp_otherLabel, Stmt.relabelAll_id] at told

theorem AtRest.exists_account_own (rest : machine.AtRest) (rules : Rules) (fuel : Nat)
    (statements : List Stmt) : ∃ (account : Account) (own : Bool) (after : Machine), ∀ lines,
      machine.account rules fuel (Stmt.relabelAll lines statements) =
        (account.relabel (if own then lines else id), after.retell (lineOf lines) #[]) := by
  obtain ⟨account, own, after, same⟩ := (machine.retell otherLabel #[]).exists_account_lined
    rules fuel (Stmt.relabelAll ownLabel statements)
  refine ⟨account, own, after, fun lines => ?_⟩
  have back : (machine.retell otherLabel #[]).retell (lineOf lines) #[] = machine := by
    rw [retell_retell, lineOf_comp_otherLabel, retell_id, rest.printed]
    exact congrArg (fun printed => { machine with printed := printed }) rest.printed.symm
  have told := same lines
  rwa [Stmt.relabelAll_relabelAll, lineOf_comp_ownLabel, back] at told

end Machine

namespace Session

variable {session : Session} {host : Host} {text : List Char} {resolved : List Stmt}

/-- Run a text that stands on other lines. -/
def runOn (session : Session) (lines : Int → Int) (host : Host) (text : List Char) :
    RunEnd × Session :=
  session.prepare.runStatements host
    (Stmt.relabelAll lines (Source.ofText text).program.statements)

/-- What a session answers and hands on is as an account says. -/
def Tells (session : Session) (result : RunEnd × Session) (account : Account) : Prop :=
  ∃ machine, session.Accounted result (account, machine)

theorem runOn_accounted (lines : Int → Int) (resolves : session.settings.resolve = true)
    (accepted : Source.resolved? text = some resolved) :
    session.Accounted (session.runOn lines host text)
      (session.machine.account (session.settings.rules host) host.fuel
        (Stmt.relabelAll lines resolved)) := by
  obtain ⟨statements, parsed, clean⟩ := Option.bind_eq_some_iff.mp accepted
  have same : (resolveProgram (Stmt.relabelAll lines statements)).clean? =
      some (Stmt.relabelAll lines resolved) := by
    rw [← resolveProgram_relabel, Resolution.clean?_relabel, clean]
    rfl
  rw [runOn, Source.parsed?_eq parsed]
  exact @Accounted.of_prepare _ session.notes session.distances _ _
    (runStatements_accounted ⟨rfl, rfl, rfl⟩ host resolves same)

theorem interpret_of_success {result : RunResult} (resolves : session.settings.resolve = true)
    (accepted : Source.resolved? text = some resolved)
    (ran : (session.run host text).1 = .finished result) (succeeds : result.status = .success) :
    ∃ after, interpret (session.settings.rules host) host.fuel resolved session.machine =
        .done () after ∧
      session.Accounted (session.run host text)
        (⟨after.printed.toList, [], .finished .success⟩, { after with printed := #[] }) := by
  have accounted := session.run_accounted host text
  rw [account_of_resolved? resolves accepted] at accounted
  -- The status rules out all endings but the first.
  have ends := accounted.ending.symm.trans ran
  cases done : interpret (session.settings.rules host) host.fuel resolved session.machine with
  | done value after =>
    rw [Machine.account_of_done done] at accounted
    exact ⟨after, rfl, accounted⟩
  | failed failure after =>
    cases failure with
    | runtime error =>
      rw [Machine.account_of_runtime done] at ends
      cases ends
      cases succeeds
    | fault fault =>
      rw [Machine.account_of_fault done] at ends
      cases ends
  | exhausted =>
    rw [Machine.account_of_cut done] at ends
    cases ends

/-- Behind a text that is done, a second one in the same run does what it does by itself. -/
theorem run_joined_accounted {first second : List Char} {more : List Stmt} {after : Machine}
    (resolves : session.settings.resolve = true) (rest : session.machine.AtRest)
    (accepted : Source.resolved? first = some resolved)
    (also : Source.resolved? second = some more)
    (done : interpret (session.settings.rules host) host.fuel resolved session.machine =
      .done () after) :
    let behind := { after with printed := #[] }.account (session.settings.rules host) host.fuel
      (Stmt.relabelAll (· + Token.newlines first) more)
    ∃ left, session.Accounted
        (session.run { host with fuel := host.fuel + resolved.length } (first ++ '\n' :: second))
        (behind.1.behind after.printed.toList, left) ∧
      (behind.1.ending ≠ .unfinished → left = behind.2) := by
  intro behind
  have accounted := session.run_accounted { host with fuel := host.fuel + resolved.length }
    (first ++ '\n' :: second)
  have inOne := @interpret_append _ _ _ (Stmt.relabelAll (· + Token.newlines first) more) _ _ _ rest
    (Source.returnsInside_of_resolved? accepted) done (Nat.le_add_right _ _)
  obtain ⟨same, leaves⟩ := Machine.account_behind inOne
  rw [account_of_resolved? resolves (Source.resolved?_append accepted also)] at accounted
  refine ⟨_, ?_, leaves⟩
  rw [← same]
  exact accounted

structure Lined (settings : Settings) (tagged : Machine) (lines : Int → Int) (session : Session) :
    Prop where
  settings : session.settings = settings
  machine : session.machine = tagged.retell (lineOf lines) #[]

/-- Whatever the lines of one text are, a later run answers the same, up to a report that
stands in that text. -/
theorem exists_run_lined (settings : Settings) (tagged : Machine) (host : Host)
    (text : List Char) : ∃ (account : Account) (own : Bool) (after : Machine),
      ∀ lines session, Lined settings tagged lines session →
        session.Tells (session.run host text) (account.relabel (if own then lines else id)) ∧
          Lined settings after lines (session.run host text).2 := by
  -- First of the accounts; what the session does is then told by them.
  have told : ∃ (account : Account) (own : Bool) (after : Machine),
      ∀ lines session, Lined settings tagged lines session →
        session.account host text =
          (account.relabel (if own then lines else id), after.retell (lineOf lines) #[]) := by
    unfold Session.account
    cases code : Source.code settings.resolve text with
    | error reports =>
      refine ⟨⟨[], reports, .finished .rejected⟩, false, tagged, fun lines session lined => ?_⟩
      rw [lined.settings, code, lined.machine]
      exact congrArg (·, _) (Account.relabel_id _).symm
    | ok statements =>
      obtain ⟨account, own, after, same⟩ :=
        tagged.exists_account_other (settings.rules host) host.fuel statements
      refine ⟨account, own, after, fun lines session lined => ?_⟩
      rw [lined.settings, code, lined.machine, ← same]
  obtain ⟨account, own, after, same⟩ := told
  refine ⟨account, own, after, fun lines session lined => ?_⟩
  have accounted := session.run_accounted host text
  rw [same lines session lined] at accounted
  exact ⟨⟨_, accounted⟩, accounted.settings.trans lined.settings, accounted.machine⟩

theorem exists_after_lined (settings : Settings) (runs : List (Host × List Char)) :
    ∀ tagged : Machine, ∃ after : Machine, ∀ lines session, Lined settings tagged lines session →
      Lined settings after lines (session.after runs) := by
  induction runs with
  | nil => exact fun tagged => ⟨tagged, fun _ _ => id⟩
  | cons run runs ih =>
    intro tagged
    obtain ⟨_, _, middle, runs⟩ := exists_run_lined settings tagged run.1 run.2
    obtain ⟨after, goesOn⟩ := ih middle
    exact ⟨after, fun lines session lined => goesOn lines _ (runs lines session lined).2⟩

/-- Sessions that differ in labels only answer alike, also behind some runs. -/
theorem exists_tells_lined (settings : Settings) (tagged : Machine) (runs : List (Host × List Char))
    (host : Host) (text : List Char) : ∃ (account : Account) (own : Bool),
      ∀ lines session, Lined settings tagged lines session →
        (session.after runs).Tells ((session.after runs).run host text)
          (account.relabel (if own then lines else id)) := by
  obtain ⟨before, goes⟩ := exists_after_lined settings runs tagged
  obtain ⟨account, own, _, tells⟩ := exists_run_lined settings before host text
  exact ⟨account, own, fun lines session lined => (tells lines _ (goes lines _ lined)).1⟩

theorem Lined.globals_unlabelled {settings : Settings} {tagged : Machine} {lines : Int → Int}
    (lined : Lined settings tagged lines session) :
    session.globals.map (Prod.map id ValueIn.unlabelled) =
      (tagged.store.bindings Machine.globals).map (Prod.map id ValueIn.unlabelled) := by
  have values : ValueIn.unlabelled ∘ ValueIn.relabel (lineOf lines) =
      (ValueIn.unlabelled : Value → Value) := by
    funext value
    exact value.relabel_relabel
  rw [globals, lined.machine, Machine.retell, Store.bindings_map, List.map_map, Prod.map_comp_map,
    values]
  rfl

/-- Two texts of which each is accepted, the first of which runs to its end, are as one text what
they are one after the other. The whole text is accepted; it prints what the first prints and
then what the second does, and ends like the second, with the same reports. A report stands in
the second text if it goes along with any lines that this text is put on, and then it stands as
many lines later as the first text and the line break take; any other is the same. What is left
is the same too: the globals, and all that later runs do. -/
theorem run_joined {settings : Settings} (resolves : settings.resolve = true)
    (earlier : List (Host × List Char)) (host : Host) {first second : List Char}
    {resolved : List Stmt} {result : RunResult}
    (accepted : Source.resolved? first = some resolved) (also : (Source.resolved? second).isSome)
    (ran : (((start settings).after earlier).run host first).1 = .finished result)
    (succeeds : result.status = .success) :
    let session := (start settings).after earlier
    let middle := (session.run host first).2
    let next := middle.run host second
    let longer := { host with fuel := host.fuel + resolved.length }
    let whole := session.run longer (first ++ '\n' :: second)
    let shift := (· + Token.newlines first)
    (Source.resolved? (first ++ '\n' :: second)).isSome ∧
    (∃ (lines : List String) (account : Account) (own : Bool),
      session.Tells (session.run host first) ⟨lines, [], .finished .success⟩ ∧
      middle.Tells next account ∧
      session.Tells whole ((account.relabel (if own then shift else id)).behind lines) ∧
      ∀ other, middle.Tells (middle.runOn other host second)
        (account.relabel (if own then other else id))) ∧
    (next.1 ≠ .unfinished →
      whole.2.globals.map (Prod.map id ValueIn.unlabelled) =
        next.2.globals.map (Prod.map id ValueIn.unlabelled) ∧
      ∀ later last text, ∃ (account : Account) (own : Bool),
        (next.2.after later).Tells ((next.2.after later).run last text) account ∧
        (whole.2.after later).Tells ((whole.2.after later).run last text)
          (account.relabel (if own then shift else id)) ∧
        ∀ other, ((middle.runOn other host second).2.after later).Tells
          (((middle.runOn other host second).2.after later).run last text)
          (account.relabel (if own then other else id))) := by
  intro session middle next longer whole shift
  obtain ⟨more, acceptedAlso⟩ := Option.isSome_iff_exists.mp also
  have joined : Source.resolved? (first ++ '\n' :: second) =
      some (resolved ++ Stmt.relabelAll shift more) := Source.resolved?_append accepted acceptedAlso
  obtain ⟨same, rest⟩ := @after_atRest earlier (start settings) ⟨rfl, rfl, rfl⟩
  have resolving : session.settings.resolve = true := (congrArg Settings.resolve same).trans resolves
  obtain ⟨after, done, told⟩ := interpret_of_success resolving accepted ran succeeds
  have kept : middle.settings = session.settings := told.settings
  have machine : middle.machine = { after with printed := #[] } := told.machine
  have rules (host : Host) : middle.settings.rules host = session.settings.rules host := by rw [kept]
  have goesOn : middle.settings.resolve = true := (congrArg Settings.resolve kept).trans resolving
  have atRest : middle.machine.AtRest := (after_atRest [(host, first)] rest).2
  -- Some labels of the machine say which lines of it are the second text's own; on which lines that
  -- stands is then a matter of the labels.
  obtain ⟨account, own, left, lined⟩ :=
    atRest.exists_account_own (session.settings.rules host) host.fuel more
  have ofNext : middle.Accounted next (account, left.retell (lineOf id) #[]) := by
    have accounted := middle.run_accounted host second
    rwa [account_of_resolved? goesOn acceptedAlso, rules, ← Stmt.relabelAll_id more, lined id,
      ite_self, account.relabel_id] at accounted
  have onOther (other : Int → Int) : middle.Accounted (middle.runOn other host second)
      (account.relabel (if own then other else id), left.retell (lineOf other) #[]) := by
    rw [← lined other, ← rules]
    exact runOn_accounted other goesOn acceptedAlso
  -- In the whole text the second part stands behind the first, shifted by its lines.
  obtain ⟨behind, ofWhole, leaves⟩ :=
    run_joined_accounted resolving rest accepted acceptedAlso done
  rw [← machine, lined shift] at ofWhole leaves
  refine ⟨joined ▸ rfl, ⟨after.printed.toList, account, own, ⟨_, told⟩, ⟨_, ofNext⟩, ⟨_, ofWhole⟩,
    fun other => ⟨_, onOther other⟩⟩, fun ended => ?_⟩
  -- Nothing is known of what is left when the fuel runs out.
  have ends : account.ending ≠ .unfinished := fun cut =>
    ended (ofNext.ending.trans (Account.runEnd_eq_unfinished_iff.mpr cut))
  have linedNext : Lined session.settings left id next.2 :=
    ⟨ofNext.settings.trans kept, ofNext.machine⟩
  have linedWhole : Lined session.settings left shift whole.2 :=
    ⟨ofWhole.settings, ofWhole.machine.trans (leaves ends)⟩
  have linedOther (other : Int → Int) :
      Lined session.settings left other (middle.runOn other host second).2 :=
    ⟨(onOther other).settings.trans kept, (onOther other).machine⟩
  refine ⟨linedWhole.globals_unlabelled.trans linedNext.globals_unlabelled.symm,
    fun later last text => ?_⟩
  -- What is left differs in labels only, and so do all runs behind it.
  obtain ⟨account, own, tells⟩ := exists_tells_lined session.settings left later last text
  have tellsNext := tells id _ linedNext
  rw [ite_self, account.relabel_id] at tellsNext
  exact ⟨account, own, tellsNext, tells shift _ linedWhole, fun other => tells other _ (linedOther other)⟩

def showing : List Char :=
  ['f', 'u', 'n', ' ', 's', '(', 'x', ')', '\n',
    '\x7b', 'p', 'r', 'i', 'n', 't', ' ', 'x', ';', '\x7d']

/-- A call of it, and on the next line another one whose argument fails. -/
def shownTwice : List Char :=
  ['s', '(', 't', 'r', 'u', 'e', ')', ';', '\n', 's', '(', '-', 'n', 'i', 'l', ')', ';']

/-- The failure is on the second line of its own text, so it is on the fourth line of both. -/
theorem run_joined_fourthLine : ∃ resolved, Source.resolved? showing = some resolved ∧
    ((start ⟨true, none, true, false⟩).run ⟨20 + resolved.length, none, fun _ => 0⟩
        (showing ++ '\n' :: shownTwice)).2.journal.reports =
      [.runtime 4 "Operand must be a number."] := by
  obtain ⟨resolved, accepted⟩ := Option.isSome_iff_exists.mp
    (show (Source.resolved? showing).isSome by decide +kernel)
  have ran : ((start ⟨true, none, true, false⟩).run ⟨20, none, fun _ => 0⟩ showing).1 =
      .finished ⟨.success, [], [], []⟩ := by decide +kernel
  have joined := @run_joined ⟨true, none, true, false⟩ rfl [] ⟨20, none, fun _ => 0⟩ showing shownTwice
    resolved _ accepted (by decide +kernel) ran rfl
  have second : (((start ⟨true, none, true, false⟩).run ⟨20, none, fun _ => 0⟩ showing).2.run
      ⟨20, none, fun _ => 0⟩ shownTwice).2.journal.reports =
        [.runtime 2 "Operand must be a number."] := by decide +kernel
  have other : (((start ⟨true, none, true, false⟩).run ⟨20, none, fun _ => 0⟩ showing).2.runOn
      (· + 5) ⟨20, none, fun _ => 0⟩ shownTwice).2.journal.reports =
        [.runtime 7 "Operand must be a number."] := by decide +kernel
  refine ⟨resolved, accepted, ?_⟩
  dsimp only at joined
  rw [show (start ⟨true, none, true, false⟩).after [] = start ⟨true, none, true, false⟩ from rfl]
    at joined
  generalize ((start ⟨true, none, true, false⟩).run ⟨20, none, fun _ => 0⟩ showing).2 = middle
    at joined second other
  generalize (start ⟨true, none, true, false⟩).run ⟨20 + resolved.length, none, fun _ => 0⟩
    (showing ++ '\n' :: shownTwice) = ended at joined ⊢
  obtain ⟨_, ⟨lines, account, own, _, ⟨_, next⟩, ⟨_, whole⟩, others⟩, _⟩ := joined
  obtain ⟨_, moved⟩ := others (· + 5)
  have reported : account.reports = [.runtime 2 "Operand must be a number."] :=
    next.reports.symm.trans second
  have elsewhere : (account.relabel (if own then (· + 5) else id)).reports =
      [.runtime 7 "Operand must be a number."] := moved.reports.symm.trans other
  rw [whole.reports]
  cases own with
  | false => simp [Account.relabel, Report.relabel, reported] at elsewhere
  | true => simp [Account.behind, Account.relabel, Report.relabel, reported, Token.newlines, showing]

end Session

end Lox
