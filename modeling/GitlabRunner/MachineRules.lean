import GitlabRunner.MachineProvider
import Mathlib.Data.List.Perm.Basic

/-!
# Rules for the calls of a build

`Acquire`, `Use` and `Release` move machines in and out of the list that a build holds.  How
they do it does not depend on what holding a machine means: it follows from one rule for
each command.
-/

namespace GitlabRunner.Machine

open Concurrent Program.Returns
open Program (call)

def RemoveReason.ofUpdate : RemoveReason → Bool
  | .tooManyBuilds => true
  | .tooManyMachines => true
  | .tooManyIdleMachines => true
  | _ => false

/-- The machine that a call names is one of those that the build holds. -/
theorem mem_of_held {held : List Pointer} (data : Option Nat) :
    ∀ pointer ∈ data.bind fun index => held[index]?, pointer ∈ held := by
  intro pointer member
  obtain ⟨index, -, found⟩ := Option.bind_eq_some_iff.mp member
  exact List.mem_of_getElem? found

theorem perm_getElem?_eraseIdx (held : List Pointer) (index : Nat) :
    held.Perm (held[index]?.toList ++ held.eraseIdx index) := by
  rcases Nat.lt_or_ge index held.length with inside | outside
  · rw [List.getElem?_eq_getElem inside]
    exact (List.getElem_cons_eraseIdx_perm inside).symm
  · rw [List.getElem?_eq_none outside, List.eraseIdx_of_length_le outside]
    exact List.Perm.refl _

section Rules

variable {State : Type} {system : Semantics State Command Input Job}
  (discipline : Discipline system) (thread : Nat) (Holds : List Pointer → State → Prop)
  (Made : Pointer → List Pointer → State → Prop)

/-- The rules that a build needs in any case: `Holds` says what it knows about the machines
that it holds, and `Made` about a machine that it made next to them.  The state may be more
than the provider. -/
structure Borrowing : Prop where
  observe {β : Type} {command : Command β} {held : List Pointer} : command.observes = true →
    discipline.Triple thread (Holds held) (call command) fun _ => Holds held
  machineDetails (name : String) (acquire : Bool) {held : List Pointer} :
    discipline.Triple thread (Holds held) (call (.machineDetails name acquire))
      fun found later => (∀ pointer ∈ found, pointer.name = name) ∧
        Holds ((if acquire then found else none).toList ++ held) later
  startCreation {pointer : Pointer} {held : List Pointer} :
    discipline.Triple thread (Made pointer held) (call (.startCreation pointer))
      fun _ => Holds held
  keep {pointer : Pointer} {held : List Pointer} {state : State} :
    Made pointer held state → Holds (pointer :: held) state
  addRetry {pointer : Pointer} {held : List Pointer} : pointer ∈ held →
    discipline.Triple thread (Holds held) (call (.addRetry pointer)) fun _ => Holds held
  removeIdle {name : String} {reason : RemoveReason} {held : List Pointer} :
    reason.ofUpdate = true →
    discipline.Triple thread (Holds held) (call (.remove name reason)) fun _ => Holds held

/-- The rules for the commands that bring machines into the list. -/
structure Lending : Prop extends Borrowing discipline thread Holds Made where
  create (made : MachineState) {held : List Pointer} :
    discipline.Triple thread (Holds held) (Machine.create made) fun pointer => Made pointer held
  writeAcquired {pointer : Pointer} {held : List Pointer} :
    discipline.Triple thread (Holds (pointer :: held)) (call (.writeState pointer .acquired))
      fun _ => Holds (pointer :: held)
  remove {pointer : Pointer} (reason : RemoveReason) {held : List Pointer} :
    discipline.Triple thread (Holds (pointer :: held)) (call (.remove pointer.name reason))
      fun _ => Holds held

/-- A rule for each command of a build. -/
structure Rules : Prop extends Borrowing discipline thread Holds Made where
  newMachine (state : MachineState) {held : List Pointer} :
    discipline.Triple thread (Holds held) (call (.newMachine state))
      fun pointer => Made pointer held
  writeCreating {pointer : Pointer} {held : List Pointer} :
    discipline.Triple thread (Made pointer held) (call (.writeState pointer .creating))
      fun _ => Made pointer held
  resetCounts {pointer : Pointer} {held : List Pointer} :
    discipline.Triple thread (Made pointer held) (call (.resetCounts pointer))
      fun _ => Made pointer held
  addUse {pointer : Pointer} {held : List Pointer} : pointer ∈ held →
    discipline.Triple thread (Holds held) (call (.addUse pointer)) fun _ => Holds held
  write {pointer : Pointer} {state : MachineState} {held : List Pointer} :
    state = .acquired ∨ state = .used → pointer ∈ held →
    discipline.Triple thread (Holds held) (call (.writeState pointer state)) fun _ => Holds held
  writeIdle {pointer : Pointer} {held : List Pointer} :
    discipline.Triple thread (Holds (pointer :: held)) (call (.writeState pointer .idle))
      fun _ => Holds held
  remove {pointer : Pointer} (reason : RemoveReason) {held : List Pointer} :
    discipline.Triple thread (Holds (pointer :: held)) (call (.remove pointer.name reason))
      fun gone later => (gone = false → Holds (pointer :: held) later) ∧ Holds held later

end Rules

variable {State : Type} {system : Semantics State Command Input Job}
  {discipline : Discipline system} {thread : Nat} {Holds : List Pointer → State → Prop}
  {Made : Pointer → List Pointer → State → Prop} {held : List Pointer} {pointer : Pointer}

namespace Lending

variable (rules : Lending discipline thread Holds Made)

include rules

theorem reads {α : Type} {program : Program Command α} (every : program.Every Command.reads) :
    discipline.Triple thread (Holds held) program fun _ => Holds held := by
  intro state holds
  induction program generalizing state with
  | done value => exact holds
  | perform command next ih =>
    exact Discipline.Keeps.mono (rules.observe (Bool.and_eq_true_iff.mp every.1).1 _ holds)
      (fun _ => id) (fun response later => ih response (every.2 response) later)

theorem findFreeMachine (names : List String) :
    discipline.Triple thread (Holds held) (findFreeMachine names)
      fun found => Holds (found.toList ++ held) := by
  induction names with
  | nil => exact fun _ holds => holds
  | cons name names ih =>
    refine .bind (rules.machineDetails name true) fun found => ?_
    cases found with
    | none => exact fun state holds => ih state holds.2
    | some pointer =>
      rintro state ⟨named, holds⟩
      obtain rfl : pointer.name = name := named pointer rfl
      refine (rules.observe rfl _ holds).bind fun connected => ?_
      cases connected with
      | true => exact fun _ holds => holds
      | false => exact Discipline.Triple.bind (rules.remove .unavailable) fun _ => ih

theorem provision (tries : Nat) (created : Bool) (member : pointer ∈ held) :
    discipline.Triple thread (Holds held) (provision pointer tries created)
      fun _ => Holds held := by
  induction tries generalizing created with
  | zero => exact fun _ holds => holds
  | succ tries ih =>
    cases created with
    | true => exact fun _ holds => holds
    | false => exact .bind (rules.addRetry member) fun _ => .bind (rules.observe rfl) ih

/-- The creation of a machine ends with the state that it was made for, or with
its removal. -/
theorem createMachine {state : MachineState} {kept : List Pointer}
    (finish : discipline.Triple thread (Holds (pointer :: held))
      (call (.writeState pointer state)) fun _ => Holds (kept ++ held)) :
    discipline.Triple thread (Holds (pointer :: held)) (createMachine pointer state)
      fun created => Holds ((if created then kept else []) ++ held) := by
  refine .bind (rules.observe rfl) fun created => ?_
  refine .bind (rules.provision 3 created List.mem_cons_self) fun provisioned => ?_
  cases provisioned with
  | true => exact .bind finish fun _ _ holds => holds
  | false => exact .bind (rules.remove .failedToCreate) fun _ _ holds => holds

variable (config : RunnerConfig)

theorem useMachine :
    discipline.Triple thread (Holds held) (useMachine config)
      fun found => Holds (found.toList ++ held) := by
  refine .bind (rules.reads (loadMachines_reads config)) fun machines => ?_
  cases machines with
  | none => exact fun _ holds => holds
  | some machines =>
    refine .bind (rules.findFreeMachine machines.reverse) fun found => ?_
    cases found with
    | some pointer => exact fun _ holds => holds
    | none =>
      refine .bind (rules.create .acquired) fun pointer _ made => ?_
      have finish : discipline.Triple thread (Holds (pointer :: held))
          (call (.writeState pointer .acquired)) fun _ => Holds ([pointer] ++ held) :=
        rules.writeAcquired
      refine (rules.createMachine finish _ (rules.keep made)).bind fun created => ?_
      cases created with
      | true | false => exact fun _ holds => holds

theorem retryUseMachine (tries : Nat) :
    discipline.Triple thread (Holds held) (retryUseMachine config tries)
      fun found => Holds (found.toList ++ held) := by
  induction tries with
  | zero => exact fun _ holds => holds
  | succ tries ih =>
    refine .bind (rules.useMachine config) fun found => ?_
    cases found with
    | some pointer => exact fun _ holds => holds
    | none => exact ih

omit rules in
theorem updateMachine_returns (data : MachinesData) (pointer : Pointer) :
    (updateMachine config data pointer).Returns fun reason =>
      ∀ given ∈ reason, given.ofUpdate = true := by
  have noReason : ∀ given ∈ (none : Option RemoveReason), given.ofUpdate = true := by simp
  refine after ?_
  intro state
  split
  · exact pure noReason
  · refine after ?_
    intro tooMany
    split
    · exact pure (by simp [RemoveReason.ofUpdate])
    · split
      · exact pure (by simp [RemoveReason.ofUpdate])
      · refine after ?_
        intro tooLong
        split
        · refine after ?_
          intro idleCount
          split
          · exact pure (by simp [RemoveReason.ofUpdate])
          · exact pure noReason
        · exact pure noReason

theorem updateMachines (machines : List String)
    (data : MachinesData) (validMachines : List String) :
    discipline.Triple thread (Holds held)
      (updateMachines config machines data validMachines) fun _ => Holds held := by
  induction machines generalizing data validMachines with
  | nil => exact fun _ holds => holds
  | cons name machines ih =>
    refine .bind (rules.machineDetails name false) ?_
    rintro found state ⟨-, holds⟩
    cases found with
    | none => exact ih data validMachines state holds
    | some pointer =>
      refine ((rules.reads (updateMachine_reads config data pointer) state holds).returns
        (updateMachine_returns config data pointer)).bind ?_
      rintro reason state ⟨ofUpdate, holds⟩
      cases reason with
      | none => exact (rules.reads (addDetails_reads data pointer)).bind (ih · _) state holds
      | some given =>
        exact (rules.removeIdle (ofUpdate given rfl) _ holds).bind fun _ =>
          (rules.reads (addDetails_reads data pointer)).bind (ih · _)

theorem createMachines (rounds : Nat) (data : MachinesData) :
    discipline.Triple thread (Holds held) (createMachines config rounds data)
      fun _ => Holds held := by
  induction rounds generalizing data with
  | zero => exact fun _ holds => holds
  | succ rounds ih =>
    refine .bind (rules.reads (getIdleCount_reads config)) fun idleCount => ?_
    split
    · exact fun _ holds => holds
    · split
      · exact fun _ holds => holds
      · refine .bind (rules.create .idle) fun pointer => ?_
        exact .bind rules.startCreation fun _ => ih _

theorem acquireLocked :
    discipline.Triple thread (Holds held) (acquireLocked config)
      fun result => Holds (result.join.toList ++ held) := by
  refine .bind (rules.reads (loadMachines_reads config)) fun machines => ?_
  cases machines with
  | none => exact fun _ holds => holds
  | some machines =>
    refine .bind (rules.updateMachines config machines .empty []) fun updated => ?_
    refine .bind (rules.createMachines config _ updated.1) fun data => ?_
    refine .bind (rules.findFreeMachine updated.2.reverse) fun found => ?_
    cases found with
    | some pointer => exact fun _ holds => holds
    | none =>
      refine .bind (rules.reads (getIdleCount_reads config)) fun idleCount => ?_
      split
      · exact fun _ holds => holds
      · exact fun _ holds => holds

/-- `Acquire` adds the machine that it returns to the machines of the build. -/
theorem acquire :
    discipline.Triple thread (Holds held) (Machine.acquire config)
      fun result => Holds (result.join.toList ++ held) := by
  unfold Machine.acquire
  split
  · exact fun _ holds => holds
  · refine .bind (rules.observe rfl) fun _ => ?_
    refine .bind (rules.acquireLocked config) fun result => ?_
    exact .bind (rules.observe rfl) fun _ _ holds => holds

end Lending

namespace Rules

variable (rules : Rules discipline thread Holds Made)

include rules

theorem create (state : MachineState) :
    discipline.Triple thread (Holds held) (create state) fun pointer => Made pointer held := by
  refine .bind (rules.newMachine state) fun pointer => ?_
  refine .bind rules.writeCreating fun _ => ?_
  exact .bind rules.resetCounts fun _ _ made => made

theorem lending : Lending discipline thread Holds Made where
  __ := rules.toBorrowing
  create made := rules.create made
  writeAcquired := rules.write (.inl rfl) List.mem_cons_self
  remove reason _ _ holds := (rules.remove reason _ holds).mono fun _ _ holds => holds.2

variable (config : RunnerConfig)

theorem releaseRemoved :
    discipline.Triple thread (Holds (pointer :: held)) (release.removed config pointer)
      fun gone => Holds ((if gone then [] else [pointer]) ++ held) := by
  unfold release.removed
  split
  · refine .bind (rules.observe rfl) fun usedCount => ?_
    split
    · intro state holds
      refine (rules.remove .releasedTooManyBuilds _ holds).mono ?_
      rintro gone later ⟨still, holds⟩
      cases gone with
      | true => exact holds
      | false => exact still rfl
    · exact fun _ holds => holds
  · exact fun _ holds => holds

theorem release (data : Option Pointer) :
    discipline.Triple thread (Holds (data.toList ++ held)) (release config data)
      fun _ => Holds held := by
  cases data with
  | none => exact fun _ holds => holds
  | some pointer =>
    refine .bind (rules.releaseRemoved config) fun gone => ?_
    cases gone with
    | true => exact fun _ holds => holds
    | false => exact rules.writeIdle

omit rules in
/-- The machine that `Use` finds usable is the one that it was given. -/
theorem usable_returns (data : Option Pointer) :
    (usable data).Returns fun found => ∀ pointer ∈ found, pointer ∈ data := by
  cases data with
  | none => exact pure (by simp)
  | some details =>
    refine after ?_
    intro state
    split
    · refine after ?_
      intro connected
      split
      · exact pure fun _ => id
      · exact pure (by simp)
    · exact pure (by simp)

/-- `Use` with a machine that the build holds; a new machine is released again if
its credentials cannot be had. -/
theorem useDetails (newData : Option Pointer) (member : pointer ∈ newData.toList ++ held) :
    discipline.Triple thread (Holds (newData.toList ++ held)) (useDetails config pointer newData)
      fun result => Holds (result.join.toList ++ held) := by
  refine .bind (rules.observe rfl) fun credentials => ?_
  split
  · refine .bind (rules.write (.inr rfl) member) fun _ => ?_
    exact .bind (rules.addUse member) fun _ _ holds => holds
  · exact .bind (rules.release config newData) fun _ _ holds => holds

theorem use (data : Option Pointer) (known : ∀ pointer ∈ data, pointer ∈ held) :
    discipline.Triple thread (Holds held) (use config data)
      fun result => Holds (result.join.toList ++ held) := by
  intro state holds
  refine ((rules.lending.reads (usable_reads data) state holds).returns
    (usable_returns data)).bind ?_
  rintro found state ⟨own, holds⟩
  cases found with
  | some pointer =>
    have member : pointer ∈ held := known pointer (own pointer rfl)
    exact rules.useDetails config none member state holds
  | none =>
    refine (rules.lending.retryUseMachine config 3 state holds).bind fun found => ?_
    cases found with
    | none => exact fun _ holds => holds
    | some pointer => exact rules.useDetails config (some pointer) List.mem_cons_self

end Rules

end GitlabRunner.Machine
