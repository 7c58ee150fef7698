import Lox.Proofs.Run.Gains
import Lox.Proofs.Session.Accounts
import Lox.Proofs.Session.Safety

/-! The graph of frames through the runs of a session.

Between runs the machine is rooted, whatever they ended in, and it has kept all frames
with their names in order. So every run begins at a rooted point.
-/

set_option autoImplicit false

namespace Lox

namespace Machine

variable {machine : Machine}

theorem rooted_initial : initial.Rooted := by
  have none : ∀ id, initial.store.names id = [] := fun id => Store.names_add Store.empty _ id
  have store : initial.store.Rooted := by
    refine ⟨by decide, rfl, ?_, ?_⟩
    · intro id notRoot exist
      exact absurd (Nat.lt_one_iff.mp exist) notRoot
    · intro id
      rw [none]
      exact List.nodup_nil
  refine ⟨store, store.leadsOut store.exist, ?_⟩
  intro id name value read
  rw [value?_initial] at read
  cases read

theorem Rooted.account (rooted : machine.Rooted) (rules : Rules) (fuel : Nat)
    (statements : List Stmt) : machine.Carries [] (machine.account rules fuel statements).2 := by
  rcases machine.account_machine rules fuel statements with ⟨_, same⟩ | left
  · rw [same]
    exact .self rooted
  · have roots := @RootsWith.executeAll _ _ (rootsWith rules fuel) statements _ rooted
    obtain ⟨stops, grows, _⟩ := roots.1
    rw [left]
    exact ⟨⟨stops.store, stops.store.leadsOut stops.store.exist, stops.values⟩, grows, by simp⟩

end Machine

namespace Session

variable {session : Session}

theorem rooted_start (settings : Settings) : (start settings).machine.Rooted :=
  Machine.rooted_initial.define _ trivial

theorem carries_after (runs : List (Host × List Char)) : ∀ {session : Session},
    session.machine.Rooted → session.machine.Carries [] (session.after runs).machine := by
  induction runs with
  | nil => exact .self
  | cons run runs ih =>
    intro session rooted
    have accounted := session.run_accounted run.1 run.2
    have next : session.machine.Carries [] (session.run run.1 run.2).2.machine := by
      rw [accounted.machine]
      unfold account
      split
      · exact rooted.account _ _ _
      · exact .self rooted
    exact next.trans (ih next.rooted)

theorem run_machine {host : Host} {text : List Char} {statements : List Stmt}
    (coded : Source.code session.settings.resolve text = .ok statements)
    (ends : (session.run host text).1 ≠ .unfinished) :
    (session.run host text).2.machine =
      { ((session.entry host statements).stop (session.settings.rules host)).reset with
        printed := #[] } := by
  have accounted := session.run_accounted host text
  have same : session.account host text =
      session.machine.account (session.settings.rules host) host.fuel statements := by
    rw [account, coded]
  rw [same] at accounted
  rw [accounted.ending, ne_eq, Account.runEnd_eq_unfinished_iff] at ends
  rw [accounted.machine]
  exact (Machine.account_machine _ _ _ _).resolve_left fun cut => ends cut.1

/-- In every state between runs and inside one, the way outwards from the current frame
and from the frame of each closure goes through ever older frames to the globals, and no
frame has a name twice. All that a run does to the machine are the changes of the points
that it comes to. They keep frames in their places and names in their order; only a
declaration gives the current frame a new name, and a call the frame that it makes those
of its parameters; and an assignment gives one binding another value. -/
theorem frames_of_run (settings : Settings) (earlier : List (Host × List Char)) (host : Host)
    (text : List Char) (statements : List Stmt)
    (coded : Source.code settings.resolve text = .ok statements) :
    let session := (start settings).after earlier
    let rules := session.settings.rules host
    let entry := session.entry host statements
    session.machine.Rooted ∧ session.machine.AtRest ∧
    (∀ later, session.machine.store.Extends (session.after later).machine.store) ∧
    ((session.run host text).1 ≠ .unfinished →
      (session.run host text).2.machine = { (entry.stop rules).reset with printed := #[] }) ∧
    ∀ point, Point.Reaches rules entry point →
      point.Rooted ∧ Point.Leads rules entry entry.machine point.machine ∧
      (point.task.run rules point.fuel point.machine).Roots point.machine point.task.values ∧
      Point.Leads rules entry entry.machine (point.stop rules) ∧
      ∀ before after, Point.Makes rules point before after → point.Alters before after := by
  intro session rules entry
  have rooted : session.machine.Rooted := (carries_after earlier (rooted_start settings)).rooted
  obtain ⟨kept, atRest⟩ := @after_atRest earlier (start settings) ⟨rfl, rfl, rfl⟩
  have same : Source.code session.settings.resolve text = .ok statements := by
    rw [kept]
    exact coded
  refine ⟨rooted, atRest, fun later => (carries_after later rooted).grows, run_machine same, ?_⟩
  -- A point inherits the rooted frames of the entry, and each change keeps them.
  intro point reaches
  have rootedPoint : point.Rooted := (Point.Rooted.plain rooted rfl : entry.Rooted).reach reaches
  exact ⟨rootedPoint, reaches.leads, rootedPoint.roots rules, reaches.leads_stop,
    fun before after makes => makes.alters rootedPoint⟩

/-- The run comes to an assignment that its frame cannot take, inside a block. The machine
is rooted there, and where it stops. -/
theorem frames_of_run_ownAssignment :
    let rules : Rules := ⟨none, .lexical, fun _ => 0⟩
    ∃ statements point, Source.code true ownAssignment = .ok statements ∧
      Point.Reaches rules ((start ⟨true, none, false, false⟩).entry ⟨20, none, fun _ => 0⟩ statements)
        point ∧
      Point.Raises rules point (.fault (.store (.missing "a"))) ∧ point.Rooted ∧
      (point.stop rules).Rooted := by
  intro rules
  have escapes : ((start ⟨true, none, false, false⟩).run ⟨20, none, fun _ => 0⟩ ownAssignment).1 =
      .escaped (.store (.missing "a")) := by decide +kernel
  have ready : (start ⟨true, none, false, false⟩).Ready fun _ => True := ready_start rfl
  obtain ⟨statements, same, point, reaches, raises⟩ := ready.blamed_of_run escapes
  have coded := Source.code_true_eq_ok_iff.mpr same
  obtain ⟨_, _, _, _, points⟩ :=
    frames_of_run ⟨true, none, false, false⟩ [] ⟨20, none, fun _ => 0⟩ ownAssignment statements coded
  obtain ⟨rooted, _, roots, _⟩ := points point reaches
  exact ⟨statements, point, coded, reaches, raises, rooted, roots.1.rooted⟩

end Session

end Lox
